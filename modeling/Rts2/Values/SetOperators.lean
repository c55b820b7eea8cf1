import Rts2.Values.Operators
import Mathlib.Data.List.Forall2

/-! # What `+=` and `-=` leave in a numeric value

An X command carries the operand in a value of the class of the old one. After
`+=` each component is the sum, normalised for a distance in degrees; after `-=`
the scalars hold the difference, the other classes its opposite. -/
namespace Rts2.Values
open Rts2.Daemon

variable {K : Type} [Field K] [LinearOrder K] [IsStrictOrderedRing K] [LnRangeDegrees K]

/-! ## Components -/

theorem degDist_congr {x y : K} {n : ℤ} (h : y = x + 360 * n) : degDist y = degDist x := by
  obtain ⟨hl, hu⟩ := degDist_bounds x
  obtain ⟨m, hm⟩ := degDist_turns x
  refine degDist_unique hl hu (n := m - n) ?_
  rw [hm, h]
  push_cast
  ring

theorem stored_stored_add (d : Bool) (x y : K) : stored d (stored d x + y) = stored d (x + y) := by
  cases d with
  | false => rfl
  | true =>
    obtain ⟨n, hn⟩ := degDist_turns x
    show degDist (degDist x + y) = degDist (x + y)
    exact degDist_congr (n := n) (by rw [hn]; ring)

theorem stored_sub_stored (d : Bool) (x y : K) : stored d (y - stored d x) = stored d (y - x) := by
  cases d with
  | false => rfl
  | true =>
    obtain ⟨n, hn⟩ := degDist_turns x
    show degDist (y - degDist x) = degDist (y - x)
    exact degDist_congr (n := -n) (by rw [hn]; push_cast; ring)

theorem stored_stored (d : Bool) (x : K) : stored d (stored d x) = stored d x := by
  simpa using stored_stored_add d x 0

theorem stored_zero (d : Bool) : stored d (0 : K) = 0 := by
  cases d with
  | false => rfl
  | true => exact (degDist_eq_self_iff 0).mpr (by constructor <;> norm_num)

/-- A distance in degrees lies between -180 and 180. -/
def Kept (k : Kind) (x : K) : Prop := k.degDist180 = true → -180 < x ∧ x ≤ 180

theorem stored_eq_self_iff (k : Kind) (x : K) : stored k.degDist180 x = x ↔ Kept k x := by
  unfold Kept stored
  cases k.degDist180 with
  | false => simp
  | true => simpa using degDist_eq_self_iff x

theorem stored_neg_eq_iff (d : Bool) (x : K) :
    stored d (-x) = x ↔ x = 0 ∨ (d = true ∧ x = 180) := by
  cases d with
  | false =>
    show -x = x ↔ _
    constructor
    · intro h
      left
      linarith
    · rintro (rfl | ⟨h, -⟩)
      · exact neg_zero
      · cases h
  | true =>
    show degDist (-x) = x ↔ _
    constructor
    · intro h
      obtain ⟨hl, hu⟩ := degDist_bounds (-x)
      obtain ⟨n, hn⟩ := degDist_turns (-x)
      rw [h] at hl hu hn
      have hx : x = 180 * (n : K) := by linarith
      have hn0 : ((-1 : ℤ) : K) < (n : K) := by push_cast; linarith
      have hn1 : (n : K) ≤ ((1 : ℤ) : K) := by push_cast; linarith
      have h0 := Int.cast_lt.mp hn0
      have h1 := Int.cast_le.mp hn1
      obtain rfl | rfl : n = 0 ∨ n = 1 := by omega
      · left
        simpa using hx
      · right
        exact ⟨rfl, by simpa using hx⟩
    · rintro (rfl | ⟨-, rfl⟩)
      · rw [neg_zero]
        exact stored_zero true
      · exact degDist_unique (by norm_num) le_rfl (n := 1) (by norm_num)

/-! ## One component -/

/-- The classes whose `doOpValue` starts from the operand, not from the old value. -/
def Kind.fromOperand : Kind → Bool
  | .raDec _ => true
  | .altAz => true
  | .pid => true
  | _ => false

/-- A component after `+=`. -/
def added (k : Kind) (a b : K) : K := stored k.degDist180 (a + b)

/-- A component after `-=`. -/
def taken (k : Kind) (a b : K) : K :=
  stored k.degDist180 (if k.fromOperand then b - a else a - b)

/-- A component that the `-=` of its class does not alter: for the classes that
subtract the other way around, one that is its own opposite. -/
def Exact (k : Kind) (x : K) : Prop :=
  if k.fromOperand then x = 0 ∨ (k.degDist180 = true ∧ x = 180) else Kept k x

theorem added_eq_iff (k : Kind) (a b : K) : added k a b = a + b ↔ Kept k (a + b) :=
  stored_eq_self_iff k (a + b)

theorem taken_eq_iff (k : Kind) (a b : K) : taken k a b = a - b ↔ Exact k (a - b) := by
  unfold taken Exact
  split
  · rw [← neg_sub a b]
    exact stored_neg_eq_iff k.degDist180 (a - b)
  · exact stored_eq_self_iff k (a - b)

theorem taken_added (k : Kind) (a b : K) :
    taken k (added k a b) b = a ↔ Exact k a := by
  unfold taken added Exact
  split
  · rw [stored_sub_stored, sub_add_cancel_right]
    exact stored_neg_eq_iff k.degDist180 a
  · rw [sub_eq_add_neg, stored_stored_add, add_neg_cancel_right]
    exact stored_eq_self_iff k a

variable [FloorRing K]

omit [LnRangeDegrees K] in
/-- A number set as a factor of the loop is read back. -/
theorem getPID_div (n : Int) : getPID ((n : K) / factor) = n := by
  have hf : (factor : K) ≠ 0 := by
    unfold factor
    norm_num
  unfold getPID
  rw [div_mul_cancel₀ _ hf]
  exact trunc_intCast n

omit [LnRangeDegrees K] in
theorem components_setPID (kP kI kD : K) (p i d : Int) :
    (setPID kP kI kD p i d).components = [(p : K), (i : K), (d : K)] := by
  unfold setPID
  split
  · show [((getPID ((p : K) / factor) : ℤ) : K), _, _] = _
    rw [getPID_div, getPID_div, getPID_div]
  · next h =>
    obtain ⟨hp, hi, hd⟩ : getPID kP = p ∧ getPID kI = i ∧ getPID kD = d := by
      simpa only [not_or, not_not] using h
    show [((getPID kP : ℤ) : K), _, _] = _
    rw [hp, hi, hd]

/-! ## One X command -/

/-- What `X name += operand` or `X name -= operand` leaves in a writable value. -/
def xSet {k : Kind} (old : Value K k) (op : Char) (operand : Value K k) : Value K k :=
  (doSetValue writable old op operand).2

omit [IsStrictOrderedRing K] in
theorem xSet_eq {k : Kind} {old new r : Value K k} {op : Char}
    (h : new.doOpValue op old = some r) :
    xSet old op new = if old.isEqual r then old else old.setFromValue r := by
  have hs : ValueOps.doOpValue new op old = some r := h
  unfold xSet doSetValue
  rw [hs]
  cases he : old.isEqual r with
  | false => simp [writable, ValueOps.isEqual, ValueOps.setFromValue, he]
  | true => simp [writable, ValueOps.isEqual, he]

/-- `setFromValue` normalises once more what `doOpValue` has normalised, unless
nothing changed on the way. -/
theorem components_setDouble {d : Bool} {v w x : K} (h : w = x → v = x → x = 0) :
    (if (Value.double v : Value K (.double d)).isEqual (setValueDouble w x) then
      (Value.double v : Value K (.double d))
    else Value.setFromValue (.double v) (setValueDouble w x)).components = [stored d x] := by
  have hset : ∀ r : K, (if (Value.double v : Value K (.double d)).isEqual (.double r) then
      (Value.double v : Value K (.double d))
      else Value.setFromValue (.double v) (.double r)).components =
        [if v = r then v else stored d r] := by
    intro r
    by_cases hv : v = r
    · simp [Value.isEqual, hv, Value.components]
    · simp [Value.isEqual, hv, Value.components, Value.setFromValue, setValueDouble]
  by_cases hw : w = x
  · have hr : (setValueDouble w x : Value K (.double d)) = .double w := by
      simp [setValueDouble, hw]
    rw [hr, hset]
    split
    · next hv =>
      have hx := h hw (hv.trans hw)
      rw [hv, hw, hx, stored_zero]
    · rw [hw]
  · have hr : (setValueDouble w x : Value K (.double d)) = .double (stored d x) := by
      simp [setValueDouble, hw]
    rw [hr, hset]
    split
    · next hv => rw [hv]
    · rw [stored_stored]

theorem components_setRaDec {d : Bool} (old : Value K (.raDec d)) (ra decl : K) :
    (if old.isEqual (setValueRaDec ra decl) then old
    else old.setFromValue (setValueRaDec ra decl)).components = [stored d ra, stored d decl] := by
  cases old with
  | raDec r e =>
    split
    · next h =>
      obtain ⟨hr, he⟩ : r = stored d ra ∧ e = stored d decl := by
        simpa [Value.isEqual, setValueRaDec] using h
      rw [hr, he]
      rfl
    · simp [Value.setFromValue, setValueRaDec, stored_stored, Value.components]

omit [IsStrictOrderedRing K] in
theorem components_setAltAz (old : Value K .altAz) (alt az : K) :
    (if old.isEqual (.altAz alt az) then old
    else old.setFromValue (.altAz alt az)).components = [alt, az] := by
  cases old with
  | altAz a z =>
    split
    · next h =>
      obtain ⟨ha, hz⟩ : a = alt ∧ z = az := by simpa [Value.isEqual] using h
      rw [ha, hz]
      rfl
    · rfl

theorem components_fromPID (old new : Value K .pid) :
    (if old.isEqual new then old else old.setFromValue new).components = new.components := by
  cases old with
  | pid kP kI kD =>
    cases new with
    | pid kP' kI' kD' =>
      split
      · next h =>
        obtain ⟨⟨hp, hi⟩, hd⟩ : (getPID kP = getPID kP' ∧ getPID kI = getPID kI') ∧
            getPID kD = getPID kD' := by simpa [Value.isEqual] using h
        show [((getPID kP : ℤ) : K), _, _] = _
        rw [hp, hi, hd]
        rfl
      · exact components_setPID kP kI kD _ _ _

omit [IsStrictOrderedRing K] in
/-- A plain number is taken over as it is. -/
theorem components_setScalar {k : Kind} (old new : Value K k)
    (hk : k = .integer ∨ k = .long ∨ k = .float) :
    (if old.isEqual new then old else old.setFromValue new).components = new.components := by
  split
  · next h =>
    rcases hk with rfl | rfl | rfl <;> cases old <;> cases new <;>
      simp_all [Value.isEqual, Value.components]
  · rcases hk with rfl | rfl | rfl <;> cases old <;> cases new <;> rfl

theorem xSet_add {k : Kind} (v w : Value K k) :
    (xSet v '+' w).components = List.zipWith (added k) v.components w.components := by
  cases v with
  | integer a =>
    cases w with
    | integer b =>
      rw [xSet_eq (r := .integer (a + b)) rfl, components_setScalar _ _ (by simp)]
      simp [Value.components, added, stored, Kind.degDist180]
  | long a =>
    cases w with
    | long b =>
      rw [xSet_eq (r := .long (a + b)) rfl, components_setScalar _ _ (by simp)]
      simp [Value.components, added, stored, Kind.degDist180]
  | double a =>
    cases w with
    | double b =>
      rw [xSet_eq (r := setValueDouble b (a + b)) rfl]
      refine components_setDouble fun h1 h2 => ?_
      linarith
  | float a =>
    cases w with
    | float b =>
      rw [xSet_eq (r := .float (a + b)) rfl, components_setScalar _ _ (by simp)]
      simp [Value.components, added, stored, Kind.degDist180]
  | raDec a a' =>
    cases w with
    | raDec b b' =>
      rw [xSet_eq (r := setValueRaDec (b + a) (b' + a')) rfl, components_setRaDec]
      simp [Value.components, added, Kind.degDist180, add_comm]
  | altAz a a' =>
    cases w with
    | altAz b b' =>
      rw [xSet_eq (r := .altAz (b + a) (b' + a')) rfl, components_setAltAz]
      simp [Value.components, added, stored, Kind.degDist180, add_comm]
  | pid a a' a'' =>
    cases w with
    | pid b b' b'' =>
      rw [xSet_eq (r := setPID b b' b'' (getPID b + getPID a) (getPID b' + getPID a')
        (getPID b'' + getPID a'')) rfl, components_fromPID, components_setPID]
      simp [Value.components, added, stored, Kind.degDist180, add_comm]

theorem xSet_sub {k : Kind} (v w : Value K k) :
    (xSet v '-' w).components = List.zipWith (taken k) v.components w.components := by
  cases v with
  | integer a =>
    cases w with
    | integer b =>
      rw [xSet_eq (r := .integer (a - b)) rfl, components_setScalar _ _ (by simp)]
      simp [Value.components, taken, stored, Kind.degDist180, Kind.fromOperand]
  | long a =>
    cases w with
    | long b =>
      rw [xSet_eq (r := .long (a - b)) rfl, components_setScalar _ _ (by simp)]
      simp [Value.components, taken, stored, Kind.degDist180, Kind.fromOperand]
  | double a =>
    cases w with
    | double b =>
      rw [xSet_eq (r := setValueDouble b (a - b)) rfl]
      refine components_setDouble fun h1 h2 => ?_
      linarith
  | float a =>
    cases w with
    | float b =>
      rw [xSet_eq (r := .float (a - b)) rfl, components_setScalar _ _ (by simp)]
      simp [Value.components, taken, stored, Kind.degDist180, Kind.fromOperand]
  | raDec a a' =>
    cases w with
    | raDec b b' =>
      rw [xSet_eq (r := setValueRaDec (b - a) (b' - a')) rfl, components_setRaDec]
      rfl
  | altAz a a' =>
    cases w with
    | altAz b b' =>
      rw [xSet_eq (r := .altAz (b - a) (b' - a')) rfl, components_setAltAz]
      rfl
  | pid a a' a'' =>
    cases w with
    | pid b b' b'' =>
      rw [xSet_eq (r := setPID b b' b'' (getPID b - getPID a) (getPID b' - getPID a')
        (getPID b'' - getPID a'')) rfl, components_fromPID, components_setPID]
      simp [Value.components, taken, stored, Kind.degDist180, Kind.fromOperand]

/-! ## Sums and differences -/

theorem zipWith_eq_iff {α β γ : Type} {f g : α → β → γ} {l : List α} {m : List β}
    (h : l.length = m.length) :
    List.zipWith f l m = List.zipWith g l m ↔ List.Forall₂ (fun a b => f a b = g a b) l m := by
  induction l generalizing m with
  | nil =>
    obtain rfl := List.length_eq_zero_iff.mp h.symm
    simp
  | cons a l ih =>
    cases m with
    | nil => cases h
    | cons b m =>
      have hlm : l.length = m.length := by simpa using h
      simp [ih hlm]

omit [IsStrictOrderedRing K] [LnRangeDegrees K] in
theorem components_length {k : Kind} (v w : Value K k) :
    v.components.length = w.components.length := by
  cases v <;> cases w <;> rfl

theorem zipWith_zipWith {α β : Type} (f g : α → β → α) (l : List α) (m : List β) :
    List.zipWith g (List.zipWith f l m) m = List.zipWith (fun a b => g (f a b) b) l m := by
  induction l generalizing m with
  | nil => rfl
  | cons a l ih =>
    cases m with
    | nil => rfl
    | cons b m => simp [ih]

theorem zipWith_fst {α β : Type} {l : List α} {m : List β} (h : l.length = m.length) :
    List.zipWith (fun a _ => a) l m = l := by
  induction l generalizing m with
  | nil => rfl
  | cons a l ih =>
    cases m with
    | nil => cases h
    | cons b m =>
      have hlm : l.length = m.length := by simpa using h
      simp [ih hlm]

theorem forall₂_fst {α β : Type} {P : α → Prop} {l : List α} {m : List β}
    (h : l.length = m.length) : List.Forall₂ (fun a _ => P a) l m ↔ ∀ a ∈ l, P a := by
  induction l generalizing m with
  | nil =>
    obtain rfl := List.length_eq_zero_iff.mp h.symm
    simp
  | cons a l ih =>
    cases m with
    | nil => cases h
    | cons b m =>
      have hlm : l.length = m.length := by simpa using h
      simp [ih hlm]

/-- When the two operators give the sum and the difference, and when the second
takes back the first. -/
theorem x_operators_iff {k : Kind} (v w : Value K k) :
    ((xSet v '+' w).components = List.zipWith (· + ·) v.components w.components ↔
      List.Forall₂ (fun a b => Kept k (a + b)) v.components w.components) ∧
    ((xSet v '-' w).components = List.zipWith (· - ·) v.components w.components ↔
      List.Forall₂ (fun a b => Exact k (a - b)) v.components w.components) ∧
    ((xSet (xSet v '+' w) '-' w).components = v.components ↔
      ∀ a ∈ v.components, Exact k a) := by
  have hlen := components_length v w
  refine ⟨?_, ?_, ?_⟩
  · rw [xSet_add, zipWith_eq_iff hlen]
    simp only [added_eq_iff]
  · rw [xSet_sub, zipWith_eq_iff hlen]
    simp only [taken_eq_iff]
  · have hback : (xSet (xSet v '+' w) '-' w).components =
        List.zipWith (fun a b => taken k (added k a b) b) v.components w.components := by
      rw [xSet_sub, xSet_add, zipWith_zipWith]
    have hself : v.components = List.zipWith (fun a _ => a) v.components w.components :=
      (zipWith_fst hlen).symm
    calc _ ↔ List.zipWith (fun a b => taken k (added k a b) b) v.components w.components =
          List.zipWith (fun a _ => a) v.components w.components := by rw [hback, ← hself]
      _ ↔ List.Forall₂ (fun a _ => Exact k a) v.components w.components := by
          rw [zipWith_eq_iff hlen]
          simp only [taken_added]
      _ ↔ ∀ a ∈ v.components, Exact k a := forall₂_fst hlen

theorem x_operators_iff_raDec :
    (xSet (.raDec 10 20 : Value ℚ (.raDec false)) '+' (.raDec 1 2)).components = [11, 22] ∧
    ¬ (xSet (.raDec 10 20 : Value ℚ (.raDec false)) '-' (.raDec 1 2)).components = [9, 18] ∧
    ¬ (xSet (xSet (.raDec 10 20 : Value ℚ (.raDec false)) '+' (.raDec 1 2)) '-'
        (.raDec 1 2)).components = [10, 20] := by
  obtain ⟨hadd, hsub, hback⟩ :=
    x_operators_iff (.raDec 10 20 : Value ℚ (.raDec false)) (.raDec 1 2)
  norm_num [Value.components, Kept, Exact, Kind.degDist180, Kind.fromOperand] at hadd hsub hback
  exact ⟨hadd, hsub, hback⟩

/-- `X OFFS -= 1 2` on 10 20 leaves -9 -18. -/
theorem minus_starts_from_operand :
    (xSet (.raDec 10 20 : Value ℚ (.raDec false)) '-' (.raDec 1 2)).components = [-9, -18] ∧
    ¬ ∀ (k : Kind) (v w : Value ℚ k),
      (xSet v '+' w).components = List.zipWith (· + ·) v.components w.components ∧
      (xSet v '-' w).components = List.zipWith (· - ·) v.components w.components ∧
      (xSet (xSet v '+' w) '-' w).components = v.components := by
  have hleft : (xSet (.raDec 10 20 : Value ℚ (.raDec false)) '-' (.raDec 1 2)).components =
      [-9, -18] := by
    rw [xSet_sub]
    norm_num [Value.components, taken, stored, Kind.degDist180, Kind.fromOperand]
  refine ⟨hleft, fun h => ?_⟩
  have hdiff := (h (.raDec false) (.raDec 10 20) (.raDec 1 2)).2.1
  rw [hleft] at hdiff
  norm_num [Value.components] at hdiff

end Rts2.Values
