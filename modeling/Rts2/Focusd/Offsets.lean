import Rts2.Focusd.Focuser

/-! # The target is the sum of its offsets

`Settings` are what the default position and the offsets mean: the target is
their total, and an offset may go where the total stays in the extent. -/
namespace Rts2.Focus
open Rts2.Connection Rts2.Lib Rts2.Values

variable {K : Type} [Field K] [LinearOrder K] [IsStrictOrderedRing K] [LnRangeDegrees K]

/-! ## Settings -/

structure Settings (K : Type) where
  defaultPosition : K
  filterOffset : K
  focusingOffset : K
  tempOffset : K

namespace Settings

/-- Where the settings put the focuser. -/
def total (v : Settings K) (tco : K) : K :=
  v.defaultPosition + v.filterOffset + v.focusingOffset + v.tempOffset + tco

def set (v : Settings K) (w : FocusValue) (x : K) : Settings K :=
  match w with
  | .target => v
  | .defaultPosition => { v with defaultPosition := x }
  | .filterOffset => { v with filterOffset := x }
  | .focusingOffset => { v with focusingOffset := x }
  | .tempOffset => { v with tempOffset := x }

end Settings

/-- The values with limits of their own. -/
def FocusValue.isOffset : FocusValue → Bool
  | .target | .defaultPosition => false
  | .filterOffset | .focusingOffset | .tempOffset => true

namespace Focusd
variable {d : Driver K} {s : Focusd d}

/-! ## The values of a focuser -/

/-- The default position and the offsets hold these numbers. -/
structure Shows (s : Focusd d) (v : Settings K) : Prop where
  defaultPosition : s.defaultPosition.value = some v.defaultPosition
  filterOffset : s.filterOffset.value = some v.filterOffset
  focusingOffset : s.focusingOffset.value = some v.focusingOffset
  tempOffset : s.tempOffset.value = some v.tempOffset

/-- The numbers are `float`s. -/
structure Floats (d : Driver K) (v : Settings K) : Prop where
  defaultPosition : d.single v.defaultPosition = v.defaultPosition
  filterOffset : d.single v.filterOffset = v.filterOffset
  focusingOffset : d.single v.focusingOffset = v.focusingOffset
  tempOffset : d.single v.tempOffset = v.tempOffset

/-- The published limits of an offset that holds `x`, when the target is `t`. -/
def shown (d : Driver K) (lo hi t x : K) : DoubleMinMax d :=
  ⟨some x, some (lo - t + x), some (hi - t + x)⟩

/-- The values and the extent `lo` to `hi`; the target is at `t`. -/
structure Holds (lo hi t : K) (v : Settings K) (s : Focusd d) : Prop where
  target : s.target = ⟨some t, some lo, some hi⟩
  shows : s.Shows v
  floats : Floats d v
  float : d.single t = t
  inside : lo ≤ t ∧ t ≤ hi
  moves : ∀ p ∈ s.moves, ∃ x, p = some x ∧ lo ≤ x ∧ x ≤ hi

/-- And the offsets show their limits. -/
structure Extents (lo hi t : K) (v : Settings K) (s : Focusd d) : Prop
    extends Holds lo hi t v s where
  filterExtent : s.filterOffset = shown d lo hi t v.filterOffset
  focusingExtent : s.focusingOffset = shown d lo hi t v.focusingOffset
  tempExtent : s.tempOffset = shown d lo hi t v.tempOffset

/-! ## Operations that keep the sum -/

/-- The position is the total of the settings `v`; and it is where the target is already, or
lies in the extent and the driver goes there. -/
def MovesTo (s : Focusd d) (num : Option K) (v : Settings K) (ret : Int) : Prop :=
  num = some (v.total d.tcOffset) ∧
    (num = s.target.value ∨ (s.target.passes num = true ∧ ret = 0))

/-- A value can take `new`: a number that is a `float`, with a sum that is exact. An offset
keeps its limits. -/
def Takes (s : Focusd d) (v : Settings K) (w : FocusValue) (new : DoubleMinMax d) (ret : Int) :
    Prop :=
  ∃ x, new.value = some x ∧ d.single x = x ∧ s.MovesTo (s.requested w new) (v.set w x) ret ∧
    (w.isOffset = true → (s.get w).value ≠ some x →
      new.min = (s.get w).min ∧ new.max = (s.get w).max)

/-- What keeps the target the sum of the settings, and the limits right. -/
def Ok (s : Focusd d) : Op K → Prop
  | .request w op text ret => ∀ v new r, s.Shows v → (s.get w).setValue text = some new →
    ¬(op = '=' ∧ (s.get w).isEqual new = true) → new.doOpValue op (s.get w) = some r →
    s.Takes v w r ret
  | .position new ret => ret = 0 → new = s.target.value ∧ new = s.defaultPosition.value
  | .scriptEnds ret => ∀ v, s.Shows v →
    s.MovesTo s.clearTempOffset.scriptPosition (v.set .tempOffset 0) ret
  | .idle l _ _ ret => s.isMoving = false → ∀ np, s.temperatureMove l = some np →
    ∀ v, s.Shows v → s.MovesTo (some (d.single np)) v ret
  | .info _ => True

/-! ## Numbers -/

theorem passes_iff {lo hi t x : K} :
    (⟨t, some lo, some hi⟩ : DoubleMinMax d).passes (some x) = true ↔ lo ≤ x ∧ x ≤ hi := by
  simp [MinMax.passes, doubleNumbers]

theorem isEqual_iff {a b : DoubleMinMax d} {x : K} (hb : b.value = some x) :
    a.isEqual b = true ↔ a.value = some x := by
  simp only [MinMax.isEqual, doubleNumbers, hb]
  cases a.value <;> simp

theorem setNumber_some (a : DoubleMinMax d) (x : K) :
    a.setNumber (some x) = { a with value := some x } := by
  unfold MinMax.setNumber
  split
  · rename_i heq
    have hx := (doubleNumbers false d.readDouble).eq_sound heq
    rw [← hx]
  · rfl

omit [LinearOrder K] [IsStrictOrderedRing K] [LnRangeDegrees K] in
/-- A sum is a `float`. -/
theorem single_of_plusFloat {x y : Option K} {z : K} (h : plusFloat d x y = some z) :
    d.single z = z := by
  simp only [plusFloat, Option.bind_eq_bind, Option.bind_eq_some_iff] at h
  obtain ⟨a, -, b, -, hz⟩ := h
  rw [← Option.some.inj hz]
  exact d.single_single (a + b)

theorem single_of_requested {w : FocusValue} {new : DoubleMinMax d} {z : K}
    (h : s.requested w new = some z) : d.single z = z := by
  cases w with
  | target =>
    obtain ⟨x, -, hx⟩ := Option.map_eq_some_iff.mp h
    rw [← hx]
    exact d.single_single x
  | defaultPosition => exact single_of_plusFloat h
  | filterOffset => exact single_of_plusFloat h
  | focusingOffset => exact single_of_plusFloat h
  | tempOffset => exact single_of_plusFloat h

/-! ## Movements -/

/-- No value changed, and `setTo` was called only with the target, if at all. -/
structure Same (s s' : Focusd d) : Prop where
  get : ∀ w, s'.get w = s.get w
  moves : ∀ p ∈ s'.moves, p ∈ s.moves ∨ p = s.target.value

theorem Extents.same {lo hi t : K} {v : Settings K} {s' : Focusd d} (h : Extents lo hi t v s)
    (hsame : Same s s') : Extents lo hi t v s' := by
  have htarget : s'.target = s.target := hsame.get .target
  have hdefault : s'.defaultPosition = s.defaultPosition := hsame.get .defaultPosition
  have hfilter : s'.filterOffset = s.filterOffset := hsame.get .filterOffset
  have hfocusing : s'.focusingOffset = s.focusingOffset := hsame.get .focusingOffset
  have htemp : s'.tempOffset = s.tempOffset := hsame.get .tempOffset
  refine ⟨⟨htarget.trans h.target, ⟨?_, ?_, ?_, ?_⟩, h.floats, h.float, h.inside, ?_⟩,
    hfilter.trans h.filterExtent, hfocusing.trans h.focusingExtent, htemp.trans h.tempExtent⟩
  · rw [hdefault]
    exact h.shows.defaultPosition
  · rw [hfilter]
    exact h.shows.filterOffset
  · rw [hfocusing]
    exact h.shows.focusingOffset
  · rw [htemp]
    exact h.shows.tempOffset
  · intro p hp
    rcases hsame.moves p hp with hold | htarget
    · exact h.moves p hold
    · exact ⟨t, by rw [htarget, h.target], h.inside⟩

/-- A position where the target is already, refused. -/
theorem setPosition_refused {num : Option K} {ret : Int} (hnum : num = s.target.value)
    (h : (s.setPosition num ret).1 ≠ 0) : Same s (s.setPosition num ret).2 := by
  have hstart : (s.start num).target = s.target := by
    rw [hnum]
    exact MinMax.setNumber_self s.target
  have hget : ∀ w, (s.start num).get w = s.get w := by
    intro w
    cases w with
    | target => exact hstart
    | defaultPosition => rfl
    | filterOffset => rfl
    | focusingOffset => rfl
    | tempOffset => rfl
  unfold setPosition at h ⊢
  split
  · rename_i hpasses
    rw [if_pos hpasses] at h
    split
    · refine ⟨fun w => ?_, fun p hp => ?_⟩
      · rw [← hget w]
        cases w <;> rfl
      · rcases List.mem_append.mp hp with hold | hnew
        · exact .inl hold
        · exact .inr ((List.mem_singleton.mp hnew).trans hnum)
    · rename_i hret
      rw [if_neg hret] at h
      exact absurd rfl h
  · refine ⟨fun w => ?_, fun p hp => .inl hp⟩
    rw [← hget w]
    cases w <;> rfl

/-- The driver goes to a position in the extent: the offsets show their new limits. -/
theorem Holds.setPosition {lo hi t t' : K} {v : Settings K} (h : Holds lo hi t v s)
    (hfloat : d.single t' = t') (hinside : lo ≤ t' ∧ t' ≤ hi) :
    (s.setPosition (some t') 0).1 = 0 ∧ Extents lo hi t' v (s.setPosition (some t') 0).2 := by
  have htarget : (s.start (some t')).target = ⟨some t', some lo, some hi⟩ := by
    change s.target.setNumber (some t') = _
    rw [setNumber_some, h.target]
  have hpasses : (s.start (some t')).target.passes (some t') = true := by
    rw [htarget]
    exact passes_iff.mpr hinside
  have hextent : ∀ {a : DoubleMinMax d} {x : K}, a.value = some x → d.single x = x →
      ((s.start (some t')).setTo (some t')).offsetExtent a = shown d lo hi t' x := by
    intro a x hx hsingle
    have hsetTo : ((s.start (some t')).setTo (some t')).target = ⟨some t', some lo, some hi⟩ :=
      htarget
    simp [offsetExtent, shown, hsetTo, getValueFloat, hx, hsingle, hfloat]
  simp only [Focusd.setPosition, hpasses, if_true]
  refine ⟨rfl, ⟨htarget, ⟨h.shows.defaultPosition, ?_, ?_, ?_⟩, h.floats, hfloat, hinside, ?_⟩,
    hextent h.shows.filterOffset h.floats.filterOffset,
    hextent h.shows.focusingOffset h.floats.focusingOffset,
    hextent h.shows.tempOffset h.floats.tempOffset⟩
  · exact h.shows.filterOffset
  · exact h.shows.focusingOffset
  · exact h.shows.tempOffset
  · intro p hp
    rcases List.mem_append.mp hp with hold | hnew
    · exact h.moves p hold
    · exact ⟨t', List.mem_singleton.mp hnew, hinside⟩

/-- A move that `MovesTo` allows goes to the total, or is refused where the target is. -/
theorem Holds.moved {lo hi t : K} {v v' : Settings K} {num : Option K} {ret : Int}
    (h : Holds lo hi t v s) (hm : s.MovesTo num v' ret)
    (hfloat : ∀ z, num = some z → d.single z = z) :
    ((s.setPosition num ret).1 = 0 ∧
      Extents lo hi (v'.total d.tcOffset) v (s.setPosition num ret).2) ∨
    ((s.setPosition num ret).1 ≠ 0 ∧ t = v'.total d.tcOffset ∧
      Same s (s.setPosition num ret).2) := by
  obtain ⟨hnum, hwhere⟩ := hm
  have hsingle := hfloat _ hnum
  by_cases hret : ret = 0
  · left
    have hinside : lo ≤ v'.total d.tcOffset ∧ v'.total d.tcOffset ≤ hi := by
      rcases hwhere with hthere | ⟨hpasses, -⟩
      · rw [hnum, h.target] at hthere
        rw [Option.some.inj hthere]
        exact h.inside
      · rw [hnum, h.target] at hpasses
        exact passes_iff.mp hpasses
    rw [hret, hnum]
    exact h.setPosition hsingle hinside
  · right
    have hthere : num = s.target.value := hwhere.resolve_right fun hgo => hret hgo.2
    have hrefused : (s.setPosition num ret).1 ≠ 0 := by
      unfold Focusd.setPosition
      split
      · simp [hret]
      · simp
    refine ⟨hrefused, ?_, setPosition_refused hthere hrefused⟩
    rw [hnum, h.target] at hthere
    exact (Option.some.inj hthere).symm

/-! ## Requests -/

/-- After an operation the target is the sum of the settings; refused, it left the values. -/
def Kept (lo hi : K) (s : Focusd d) (r : Int × Focusd d) : Prop :=
  (∃ v, Extents lo hi (v.total d.tcOffset) v r.2) ∧ (r.1 ≠ 0 → ∀ w, r.2.get w = s.get w)

/-- The settings that a focuser shows are its own. -/
theorem Shows.unique {v v' : Settings K} (h : s.Shows v) (h' : s.Shows v') : v = v' := by
  obtain ⟨hdefault, hfilter, hfocusing, htemp⟩ := h
  rw [h'.defaultPosition] at hdefault
  rw [h'.filterOffset] at hfilter
  rw [h'.focusingOffset] at hfocusing
  rw [h'.tempOffset] at htemp
  cases v
  cases v'
  simp_all

/-- The value of a setting is stored with the limits of the request. -/
theorem Extents.store {lo hi t x : K} {v : Settings K} {w : FocusValue} {new : DoubleMinMax d}
    (h : Extents lo hi t v s) (hw : w ≠ .target) (hx : new.value = some x)
    (hfloat : d.single x = x) (hlimits : w.isOffset = true → new = shown d lo hi t x) :
    Extents lo hi t (v.set w x) (s.put w ((s.get w).setFromValue new)) := by
  have hvalue : ∀ a : DoubleMinMax d, (a.setFromValue new).value = some x := by
    intro a
    simp [MinMax.setFromValue, hx, setNumber_some]
  have hshown : w.isOffset = true → ∀ a : DoubleMinMax d, a.setFromValue new = new := by
    intro hoffset a
    simp only [MinMax.setFromValue, hx, setNumber_some]
    rw [← hx]
  cases w with
  | target => exact absurd rfl hw
  | defaultPosition =>
    exact ⟨⟨h.target, ⟨hvalue _, h.shows.filterOffset, h.shows.focusingOffset, h.shows.tempOffset⟩,
      ⟨hfloat, h.floats.filterOffset, h.floats.focusingOffset, h.floats.tempOffset⟩,
      h.float, h.inside, h.moves⟩, h.filterExtent, h.focusingExtent, h.tempExtent⟩
  | filterOffset =>
    exact ⟨⟨h.target, ⟨h.shows.defaultPosition, hvalue _, h.shows.focusingOffset,
      h.shows.tempOffset⟩, ⟨h.floats.defaultPosition, hfloat, h.floats.focusingOffset,
      h.floats.tempOffset⟩, h.float, h.inside, h.moves⟩,
      (hshown rfl _).trans (hlimits rfl), h.focusingExtent, h.tempExtent⟩
  | focusingOffset =>
    exact ⟨⟨h.target, ⟨h.shows.defaultPosition, h.shows.filterOffset, hvalue _,
      h.shows.tempOffset⟩, ⟨h.floats.defaultPosition, h.floats.filterOffset, hfloat,
      h.floats.tempOffset⟩, h.float, h.inside, h.moves⟩,
      h.filterExtent, (hshown rfl _).trans (hlimits rfl), h.tempExtent⟩
  | tempOffset =>
    exact ⟨⟨h.target, ⟨h.shows.defaultPosition, h.shows.filterOffset, h.shows.focusingOffset,
      hvalue _⟩, ⟨h.floats.defaultPosition, h.floats.filterOffset, h.floats.focusingOffset,
      hfloat⟩, h.float, h.inside, h.moves⟩,
      h.filterExtent, h.focusingExtent, (hshown rfl _).trans (hlimits rfl)⟩

/-- A setting that is there already. -/
theorem Shows.set_eq {v : Settings K} {w : FocusValue} {x : K} (h : s.Shows v)
    (hw : w ≠ .target) (hx : (s.get w).value = some x) : v.set w x = v := by
  cases w with
  | target => exact absurd rfl hw
  | defaultPosition =>
    obtain rfl := Option.some.inj (h.defaultPosition.symm.trans hx)
    rfl
  | filterOffset =>
    obtain rfl := Option.some.inj (h.filterOffset.symm.trans hx)
    rfl
  | focusingOffset =>
    obtain rfl := Option.some.inj (h.focusingOffset.symm.trans hx)
    rfl
  | tempOffset =>
    obtain rfl := Option.some.inj (h.tempOffset.symm.trans hx)
    rfl

theorem Shows.get_value {v : Settings K} {w : FocusValue} {s' : Focusd d} (h : s.Shows v)
    (h' : s'.Shows v) (hw : w ≠ .target) : (s'.get w).value = (s.get w).value := by
  cases w with
  | target => exact absurd rfl hw
  | defaultPosition => exact h'.defaultPosition.trans h.defaultPosition.symm
  | filterOffset => exact h'.filterOffset.trans h.filterOffset.symm
  | focusingOffset => exact h'.focusingOffset.trans h.focusingOffset.symm
  | tempOffset => exact h'.tempOffset.trans h.tempOffset.symm

/-- The limits of an offset do not change with its value. -/
theorem Extents.limits_set {lo hi x tco : K} {v : Settings K} {w : FocusValue}
    (h : Extents lo hi (v.total tco) v s) (hw : w.isOffset = true) :
    (s.get w).min = (shown d lo hi ((v.set w x).total tco) x).min ∧
    (s.get w).max = (shown d lo hi ((v.set w x).total tco) x).max := by
  cases w with
  | target => cases hw
  | defaultPosition => cases hw
  | filterOffset =>
    simp only [get, h.filterExtent, shown, Settings.total, Settings.set, Option.some.injEq]
    constructor <;> ring
  | focusingOffset =>
    simp only [get, h.focusingExtent, shown, Settings.total, Settings.set, Option.some.injEq]
    constructor <;> ring
  | tempOffset =>
    simp only [get, h.tempExtent, shown, Settings.total, Settings.set, Option.some.injEq]
    constructor <;> ring

theorem Extents.doSetValue {lo hi : K} {v : Settings K} {w : FocusValue} {op : Char}
    {new : DoubleMinMax d} {ret : Int} (h : Extents lo hi (v.total d.tcOffset) v s)
    (hok : ∀ r, new.doOpValue op (s.get w) = some r → s.Takes v w r ret) :
    Kept lo hi s (s.doSetValue w op new ret) := by
  unfold Focusd.doSetValue
  split
  · exact ⟨⟨v, h⟩, fun _ _ => rfl⟩
  · rename_i r hr
    obtain ⟨x, hx, hfloat, hmoves, hlimits⟩ := hok r hr
    have hmoved := h.toHolds.moved hmoves fun z hz => single_of_requested hz
    rcases hmoved with ⟨hzero, hgone⟩ | ⟨hrefused, -, hsame⟩
    · have hret : (s.setValue w r ret).1 = 0 := by simp [setValue, hzero]
      have hstate : (s.setValue w r ret).2 = (s.setPosition (s.requested w r) ret).2 := rfl
      simp only [hret, lt_irrefl, if_false, hstate]
      generalize (s.setPosition (s.requested w r) ret).2 = gone at hgone
      by_cases hw : w = .target
      · obtain rfl := hw
        have hthere : (gone.get .target).isEqual r = true := by
          rw [isEqual_iff hx]
          have hrequested := hmoves.1
          simp only [requested, getValueFloat, hx, Option.map_some, hfloat] at hrequested
          rw [hrequested]
          exact congrArg MinMax.value hgone.target
        rw [if_pos hthere]
        exact ⟨⟨v, hgone⟩, fun hne => absurd rfl hne⟩
      · by_cases hequal : (gone.get w).isEqual r = true
        · have hset := hgone.shows.set_eq hw ((isEqual_iff hx).mp hequal)
          rw [hset] at hgone
          rw [if_pos hequal]
          exact ⟨⟨v, hgone⟩, fun hne => absurd rfl hne⟩
        · rw [if_neg hequal]
          refine ⟨⟨v.set w x, hgone.store hw hx hfloat fun hoffset => ?_⟩,
            fun hne => absurd rfl hne⟩
          have hnew : (s.get w).value ≠ some x := by
            rw [← h.shows.get_value hgone.shows hw, Ne, ← isEqual_iff hx]
            exact hequal
          obtain ⟨hmin, hmax⟩ := hlimits hoffset hnew
          obtain ⟨hmin', hmax'⟩ := h.limits_set (x := x) hoffset
          rw [hmin'] at hmin
          rw [hmax'] at hmax
          cases r
          exact congr (congr (congrArg _ hx) hmin) hmax
    · have hret : (s.setValue w r ret).1 = -2 := by simp [setValue, hrefused]
      rw [if_pos (by rw [hret]; decide)]
      exact ⟨⟨v, h.same hsame⟩, fun _ => hsame.get⟩

theorem Extents.request {lo hi : K} {v : Settings K} {w : FocusValue} {op : Char}
    {text : List Byte} {ret : Int} (h : Extents lo hi (v.total d.tcOffset) v s)
    (hok : s.Ok (.request w op text ret)) : Kept lo hi s (s.request w op text ret) := by
  unfold Focusd.request
  split
  · exact ⟨⟨v, h⟩, fun _ _ => rfl⟩
  · rename_i new hnew
    unfold setCondValue
    split
    · exact ⟨⟨v, h⟩, fun _ _ => rfl⟩
    · rename_i hequal
      exact h.doSetValue fun r hr => hok v new r h.shows hnew hequal hr

/-! ## Other operations -/

/-- A move that leaves the settings. -/
theorem Extents.setPosition {lo hi : K} {v : Settings K} {num : Option K} {ret : Int}
    (h : Extents lo hi (v.total d.tcOffset) v s) (hm : s.MovesTo num v ret)
    (hfloat : ∀ z, num = some z → d.single z = z) : Kept lo hi s (s.setPosition num ret) := by
  rcases h.toHolds.moved hm hfloat with ⟨hzero, hgone⟩ | ⟨-, -, hsame⟩
  · exact ⟨⟨v, hgone⟩, fun hne => absurd hzero hne⟩
  · exact ⟨⟨v, h.same hsame⟩, fun _ => hsame.get⟩

theorem Extents.scriptEnds {lo hi : K} {v : Settings K} {ret : Int}
    (h : Extents lo hi (v.total d.tcOffset) v s) (hok : s.Ok (.scriptEnds ret)) :
    Kept lo hi s (s.scriptEnds ret) := by
  have hclear : Holds lo hi (v.total d.tcOffset) (v.set .tempOffset 0) s.clearTempOffset :=
    ⟨h.target, ⟨h.shows.defaultPosition, h.shows.filterOffset, h.shows.focusingOffset,
      congrArg MinMax.value (setNumber_some s.tempOffset 0)⟩,
      ⟨h.floats.defaultPosition, h.floats.filterOffset, h.floats.focusingOffset, d.single_zero⟩,
      h.float, h.inside, h.moves⟩
  have hmoves : s.clearTempOffset.MovesTo s.clearTempOffset.scriptPosition
      (v.set .tempOffset 0) ret := hok v h.shows
  rcases hclear.moved hmoves fun z hz => single_of_plusFloat hz with
    ⟨hzero, hgone⟩ | ⟨-, htotal, hsame⟩
  · exact ⟨⟨_, hgone⟩, fun hne => absurd hzero hne⟩
  · have htemp : v.tempOffset = 0 := by
      simpa [Settings.total, Settings.set] using htotal
    have hcleared : s.clearTempOffset = s := by
      unfold clearTempOffset
      rw [← htemp, ← h.shows.tempOffset, MinMax.setNumber_self]
    rw [hcleared] at hsame
    unfold Focusd.scriptEnds
    rw [hcleared]
    exact ⟨⟨v, h.same hsame⟩, fun _ => hsame.get⟩

theorem Extents.setPositionValue {lo hi : K} {v : Settings K} {new : Option K} {ret : Int}
    (h : Extents lo hi (v.total d.tcOffset) v s) (hok : s.Ok (.position new ret)) :
    Kept lo hi s (s.setPositionValue new ret) := by
  unfold Focusd.setPositionValue
  split
  · exact ⟨⟨v, h⟩, fun _ _ => rfl⟩
  · rename_i hret
    obtain ⟨htarget, hdefault⟩ := hok (not_not.mp hret)
    have hsame : Same s { s with
        position := new
        target := s.target.setNumber new
        defaultPosition := s.defaultPosition.setNumber new } := by
      refine ⟨fun w => ?_, fun p hp => .inl hp⟩
      cases w with
      | target => exact htarget ▸ MinMax.setNumber_self s.target
      | defaultPosition => exact hdefault ▸ MinMax.setNumber_self s.defaultPosition
      | filterOffset => rfl
      | focusingOffset => rfl
      | tempOffset => rfl
    exact ⟨⟨v, h.same hsame⟩, fun hne => absurd rfl hne⟩

theorem Extents.idle {lo hi : K} {v : Settings K} {l : Option (LinearFit K)}
    {isFocusing endFocusing ret : Int} (h : Extents lo hi (v.total d.tcOffset) v s)
    (hok : s.Ok (.idle l isFocusing endFocusing ret)) :
    Kept lo hi s (s.idle l isFocusing endFocusing ret) := by
  have hmask : ∀ mask newState, Same s (s.maskState mask newState) :=
    fun mask newState => ⟨fun w => by cases w <;> rfl, fun p hp => .inl hp⟩
  unfold Focusd.idle
  split
  · split
    · exact ⟨⟨v, h⟩, fun hne => absurd rfl hne⟩
    · split
      · exact ⟨⟨v, h.same (hmask _ _)⟩, fun hne => absurd rfl hne⟩
      · exact ⟨⟨v, h.same (hmask _ _)⟩, fun hne => absurd rfl hne⟩
  · rename_i hmoving
    split
    · exact ⟨⟨v, h⟩, fun hne => absurd rfl hne⟩
    · rename_i np hnp
      refine h.setPosition (hok (Bool.not_eq_true _ ▸ hmoving) np hnp v h.shows) fun z hz => ?_
      rw [← Option.some.inj hz]
      exact d.single_single _

/-! ## Every run -/

theorem Extents.perform {lo hi : K} {v : Settings K} {o : Op K}
    (h : Extents lo hi (v.total d.tcOffset) v s) (hok : s.Ok o) : Kept lo hi s (s.perform o) := by
  cases o with
  | request w op text ret => exact h.request hok
  | position new ret => exact h.setPositionValue hok
  | scriptEnds ret => exact h.scriptEnds hok
  | idle l isFocusing endFocusing ret => exact h.idle hok
  | info position =>
    have hsame : Same s { s with position } :=
      ⟨fun w => by cases w <;> rfl, fun p hp => .inl hp⟩
    exact ⟨⟨v, h.same hsame⟩, fun hne => absurd rfl hne⟩

/-- An offset may go where the target stays in the extent, and nowhere else. -/
theorem Extents.passes_iff {lo hi tco : K} {v : Settings K} {w : FocusValue}
    (h : Extents lo hi (v.total tco) v s) (hw : w.isOffset = true) (x : K) :
    (s.get w).passes (some x) = true ↔
      lo ≤ (v.set w x).total tco ∧ (v.set w x).total tco ≤ hi := by
  obtain ⟨hmin, hmax⟩ := h.limits_set (x := x) hw
  simp only [MinMax.passes, hmin, hmax]
  simp only [shown, doubleNumbers, Bool.not_eq_true', Bool.or_eq_false_iff, decide_eq_false_iff_not,
    not_lt]
  constructor
  · rintro ⟨hlo, hhi⟩
    exact ⟨by linarith, by linarith⟩
  · rintro ⟨hlo, hhi⟩
    exact ⟨by linarith, by linarith⟩

/-- The values are `float`s, and the target is their sum inside the extent. -/
structure Ready (lo hi : K) (v : Settings K) (s : Focusd d) : Prop where
  shows : s.Shows v
  floats : Floats d v
  target : s.target.value = some (v.total d.tcOffset)
  float : d.single (v.total d.tcOffset) = v.total d.tcOffset
  inside : lo ≤ v.total d.tcOffset ∧ v.total d.tcOffset ≤ hi
  moves : s.moves = []

theorem Ready.setFocusExtent {lo hi : K} {v : Settings K} (h : Ready lo hi v s) :
    Extents lo hi (v.total d.tcOffset) v (s.setFocusExtent (some lo) (some hi)) := by
  have hextent : ∀ {a : DoubleMinMax d} {x : K}, a.value = some x → d.single x = x →
      ({ s with
        target := { s.target with min := some lo, max := some hi }
        defaultPosition := { s.defaultPosition with min := some lo, max := some hi } } :
          Focusd d).offsetExtent a = shown d lo hi (v.total d.tcOffset) x := by
    intro a x hx hsingle
    simp [offsetExtent, shown, getValueFloat, hx, hsingle, h.target, h.float]
  refine ⟨⟨?_, ⟨h.shows.defaultPosition, h.shows.filterOffset, h.shows.focusingOffset,
    h.shows.tempOffset⟩, h.floats, h.float, h.inside, ?_⟩,
    hextent h.shows.filterOffset h.floats.filterOffset,
    hextent h.shows.focusingOffset h.floats.focusingOffset,
    hextent h.shows.tempOffset h.floats.tempOffset⟩
  · change (⟨s.target.value, some lo, some hi⟩ : DoubleMinMax d) = _
    rw [h.target]
  · intro p hp
    rw [show (s.setFocusExtent (some lo) (some hi)).moves = s.moves from rfl, h.moves] at hp
    cases hp

/-- **The target is the sum of its offsets**: in every run whose operations are `Ok`, the
driver is sent only into the extent, the target is the sum of the settings, an offset shows
the limits that keep it in the extent, and what was refused left every value. -/
theorem target_is_sum (f : Focusd d) (lo hi : K) (v : Settings K) (os : List (Op K))
    (hf : Ready lo hi v f)
    (hok : Along step Ok (f.setFocusExtent (some lo) (some hi)) os) :
    (∀ p ∈ (run step (f.setFocusExtent (some lo) (some hi)) os).moves,
      ∃ x, p = some x ∧ lo ≤ x ∧ x ≤ hi) ∧
    (∃ v, (run step (f.setFocusExtent (some lo) (some hi)) os).Shows v ∧
      (run step (f.setFocusExtent (some lo) (some hi)) os).target.value =
        some (v.total d.tcOffset) ∧
      ∀ w, w.isOffset = true → ∀ x,
        ((run step (f.setFocusExtent (some lo) (some hi)) os).get w).passes (some x) = true ↔
          lo ≤ (v.set w x).total d.tcOffset ∧ (v.set w x).total d.tcOffset ≤ hi) ∧
    ∀ before o after, os = before ++ o :: after →
      ((run step (f.setFocusExtent (some lo) (some hi)) before).perform o).1 ≠ 0 →
      ∀ w, (run step (f.setFocusExtent (some lo) (some hi)) (before ++ [o])).get w =
        (run step (f.setFocusExtent (some lo) (some hi)) before).get w := by
  have hrun : ∀ os, Along step Ok (f.setFocusExtent (some lo) (some hi)) os →
      ∃ v, Extents lo hi (v.total d.tcOffset) v
        (run step (f.setFocusExtent (some lo) (some hi)) os) := by
    intro os hok
    refine hok.invariant (I := fun s => ∃ v, Extents lo hi (v.total d.tcOffset) v s)
      ⟨v, hf.setFocusExtent⟩ ?_
    rintro s o ⟨v, hs⟩ ho
    exact (hs.perform ho).1
  obtain ⟨v', hv'⟩ := hrun os hok
  refine ⟨hv'.moves, ⟨v', hv'.shows, congrArg MinMax.value hv'.target,
    fun w hw x => hv'.passes_iff hw x⟩, ?_⟩
  rintro before o after rfl hrefused
  obtain ⟨hbefore, hrest⟩ := (along_append _ _ _).mp hok
  obtain ⟨v, hv⟩ := hrun before hbefore
  rw [run_append]
  exact (hv.perform hrest.1).2 hrefused

/-- A driver without temperature, for numbers that are all `float`s. -/
def plainDriver : Driver ℚ where
  readDouble := wholeNumbers
  single := id
  round x := ⌊x + 1 / 2⌋
  tcOffset := 0
  single_single _ := rfl
  single_zero := rfl

/-- A focuser at 70: 50 by default, and 20 for the filter. -/
def focuserAt70 : Focusd plainDriver where
  position := some 70
  target := ⟨some 70, none, none⟩
  defaultPosition := ⟨some 50, none, none⟩
  filterOffset := ⟨some 20, none, none⟩
  focusingOffset := ⟨some 0, none, none⟩
  tempOffset := ⟨some 0, none, none⟩
  state := 0#32
  moves := []

theorem target_is_sum_filter :
    ∃ v, (run step (focuserAt70.setFocusExtent (some 0) (some 100))
        [.request .filterOffset '=' (decimal 30) 0]).Shows v ∧
      (run step (focuserAt70.setFocusExtent (some 0) (some 100))
        [.request .filterOffset '=' (decimal 30) 0]).target.value =
          some (v.total plainDriver.tcOffset) := by
  have hok : Along step Ok (focuserAt70.setFocusExtent (some 0) (some 100))
      [.request .filterOffset '=' (decimal 30) 0] := by
    refine ⟨?_, trivial⟩
    intro v new r hv hnew _ hr
    obtain rfl : (⟨50, 20, 0, 0⟩ : Settings ℚ) = v := Shows.unique ⟨rfl, rfl, rfl, rfl⟩ hv
    obtain rfl : (⟨some 30, some (-50), some 50⟩ : DoubleMinMax plainDriver) = new :=
      Option.some.inj (.trans (by decide +kernel) hnew)
    obtain rfl : (⟨some 30, some (-50), some 50⟩ : DoubleMinMax plainDriver) = r :=
      Option.some.inj (.trans (by decide +kernel) hr)
    exact ⟨30, rfl, rfl, ⟨by decide +kernel, .inr (by decide +kernel)⟩,
      fun _ _ => by decide +kernel⟩
  obtain ⟨-, ⟨v, hv, htarget, -⟩, -⟩ := target_is_sum focuserAt70 0 100 ⟨50, 20, 0, 0⟩ _
    ⟨⟨rfl, rfl, rfl, rfl⟩, ⟨rfl, rfl, rfl, rfl⟩, by decide +kernel, rfl, by decide +kernel, rfl⟩ hok
  exact ⟨v, hv, htarget⟩

/-- A default position out of the extent is refused, and the target has it; and after a
request for the target the filter may not go where the focuser could. -/
theorem target_of_refused :
    ((focuserAt70.setFocusExtent (some 0) (some 100)).request .defaultPosition '='
      (decimal 90) 0).1 = -2 ∧
    ((focuserAt70.setFocusExtent (some 0) (some 100)).request .defaultPosition '='
      (decimal 90) 0).2.target.value = some 110 ∧
    ((focuserAt70.setFocusExtent (some 0) (some 100)).request .target '=' (decimal 90) 0).1 = 0 ∧
    ((focuserAt70.setFocusExtent (some 0) (some 100)).request .target '='
      (decimal 90) 0).2.filterOffset.passes (some 40) = false ∧
    ((⟨50, 20, 0, 0⟩ : Settings ℚ).set .filterOffset 40).total plainDriver.tcOffset = 90 := by
  decide +kernel

end Focusd
end Rts2.Focus
