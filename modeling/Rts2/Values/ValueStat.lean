import Mathlib.Analysis.Real.Sqrt
import Mathlib.Data.List.Sort
import Rts2.Lib.Statistics
import Rts2.Lib.While

/-! # Statistics of measurements

`ValueDoubleStat` and `ValueDoubleTimeserie` hold measurements and calculate statistics of them.
Numbers are exact; what is no number is `none`. -/
namespace Rts2.Values.ValueStat
open Rts2.Lib

/-! ## Calls -/

/-- Calls for measurements of some kind; `maxQueSize` is the size of the window. -/
inductive Call (M : Type*) where
  | addValue (in_val : M)
  | addValueQue (in_val : M) (maxQueSize : Nat)
  | clearStat
  | calculate

variable {M : Type*}

/-- The last window of a list; without a window of size 0. -/
def window (maxQueSize : Nat) (l : List M) : List M :=
  if maxQueSize = 0 then l else l.drop (l.length - maxQueSize)

/-- What is held after a call. -/
def Call.held (l : List M) : Call M → List M
  | .addValue in_val => l ++ [in_val]
  | .addValueQue in_val maxQueSize => window maxQueSize (l ++ [in_val])
  | .clearStat => []
  | .calculate => l

def held (calls : List (Call M)) : List M := calls.foldl Call.held []

/-- States that calls lead to, for calls that return. -/
def Runs {σ : Type*} (step : σ → Call M → σ → Prop) : σ → List (Call M) → σ → Prop
  | s, [], s' => s' = s
  | s, call :: calls, s' => ∃ next, step s call next ∧ Runs step next calls s'

/-- `while (maxQueSize > 0 && valueList.size () >= maxQueSize) valueList.pop_front ();` -/
def statTurn (maxQueSize : Nat) (valueList : List M) : List M ⊕ List M :=
  if 0 < maxQueSize ∧ maxQueSize ≤ valueList.length then .inl valueList.tail else .inr valueList

/-- `while (valueList.size () >= maxQueSize) valueList.pop_front ();` -/
def timeserieTurn (maxQueSize : Nat) (valueList : List M) : List M ⊕ List M :=
  if maxQueSize ≤ valueList.length then .inl valueList.tail else .inr valueList

/-! ## The values -/

variable {K : Type*} [Field K] [LinearOrder K]

/-- An exact `sqrt`. -/
structure Root (K : Type*) [Field K] [LinearOrder K] where
  sqrt : K → K
  mul_self : ∀ x, 0 ≤ x → sqrt x * sqrt x = x

structure ValueDoubleStat (K : Type*) where
  value : Option K
  numMes : Nat
  mode : Option K
  min : Option K
  max : Option K
  stdev : Option K
  valueList : List K

/-- Before the first call. -/
def ValueDoubleStat.start : ValueDoubleStat K := ⟨none, 0, none, none, none, none, []⟩

def ValueDoubleStat.clearStat (s : ValueDoubleStat K) : ValueDoubleStat K :=
  { s with numMes := 0, mode := none, min := none, max := none, stdev := none, valueList := [] }

/-- The element in the middle of a sorted list, or the mean of the two that are. -/
def middle (numMes : Nat) (sorted : List K) : Option K :=
  if numMes % 2 = 1 then sorted[numMes / 2]?
  else do
    let below ← sorted[numMes / 2 - 1]?
    let above ← sorted[numMes / 2]?
    some ((below + above) / (2 : ℕ))

/-- One turn of the loop of `calculate`, on `sum` and `stdev`. -/
def ValueDoubleStat.turn (value : Option K) (acc : K × Option K) (x : K) : K × Option K :=
  (acc.1 + x, do
    let stdev ← acc.2
    let value ← value
    some (stdev + (x - value) * (x - value)))

def ValueDoubleStat.calculate (root : Root K) (s : ValueDoubleStat K) : ValueDoubleStat K :=
  if s.valueList = [] then s
  else
    let sorted := s.valueList.mergeSort fun a b => decide (a ≤ b)
    let numMes := s.valueList.length
    let acc := sorted.foldl (turn s.value) (0, some 0)
    { s with
      min := sorted.head?
      max := sorted.getLast?
      numMes := numMes
      value := some (acc.1 / numMes)
      stdev := acc.2.map fun stdev => root.sqrt (stdev / numMes)
      mode := middle numMes sorted }

/-- What a call does; `addValue` with a queue size when its loop is left. -/
def ValueDoubleStat.Step (root : Root K) (s : ValueDoubleStat K) (call : Call K)
    (s' : ValueDoubleStat K) : Prop :=
  match call with
  | .addValue in_val => s' = { s with valueList := s.valueList ++ [in_val] }
  | .addValueQue in_val maxQueSize => ∃ valueList, Leaves (statTurn maxQueSize) s.valueList valueList ∧
      s' = { s with valueList := valueList ++ [in_val] }
  | .clearStat => s' = s.clearStat
  | .calculate => s' = s.calculate root

structure ValueDoubleTimeserie (K : Type*) where
  value : Option K
  numMes : Nat
  mode : Option K
  min : Option K
  max : Option K
  stdev : Option K
  alpha : Option K
  beta : Option K
  valueList : List (K × K)

def ValueDoubleTimeserie.start : ValueDoubleTimeserie K :=
  ⟨none, 0, none, none, none, none, none, none, []⟩

def ValueDoubleTimeserie.clearStat (s : ValueDoubleTimeserie K) : ValueDoubleTimeserie K :=
  { s with
    numMes := 0, mode := none, min := none, max := none, stdev := none, alpha := none, beta := none
    valueList := [] }

/-- `std::pair::operator<=` -/
def pairLe (a b : K × K) : Bool := decide (a.1 < b.1) || decide (a.1 = b.1) && decide (a.2 ≤ b.2)

/-- What the second loop of `calculate` sums up. -/
structure Sums (K : Type*) where
  stdev : K
  sx : K
  alpha : K
  alpha2 : K

/-- One turn of it, around the mean of the values and the mean of the times. -/
def Sums.turn (value sum2 : K) (acc : Sums K) (p : K × K) : Sums K :=
  let x := p.2 - sum2
  ⟨acc.stdev + (p.1 - value) * (p.1 - value), acc.sx + x, acc.alpha + x * p.1, acc.alpha2 + x * x⟩

/-- A quotient, which over 0 is no number. -/
def divide (a b : K) : Option K := if b = 0 then none else some (a / b)

def ValueDoubleTimeserie.calculate (root : Root K) (s : ValueDoubleTimeserie K) :
    ValueDoubleTimeserie K :=
  if s.valueList = [] then s
  else
    let sorted := s.valueList.mergeSort pairLe
    let numMes := s.valueList.length
    let sums := sorted.foldl (fun acc p => (acc.1 + p.1, acc.2 + p.2)) ((0, 0) : K × K)
    let acc := sorted.foldl (Sums.turn (sums.1 / numMes) (sums.2 / numMes)) ⟨0, 0, 0, 0⟩
    let beta := divide (acc.alpha - acc.sx * sums.1 / numMes) (acc.alpha2 - acc.sx * acc.sx / numMes)
    { s with
      min := sorted.head?.map Prod.fst
      max := sorted.getLast?.map Prod.fst
      numMes := numMes
      value := some (sums.1 / numMes)
      stdev := some (root.sqrt (acc.stdev / numMes))
      beta := beta
      alpha := beta.map fun beta => (sums.1 - beta * acc.alpha) / numMes
      mode := middle numMes (sorted.map Prod.fst) }

def ValueDoubleTimeserie.Step (root : Root K) (s : ValueDoubleTimeserie K) (call : Call (K × K))
    (s' : ValueDoubleTimeserie K) : Prop :=
  match call with
  | .addValue in_val => s' = { s with valueList := s.valueList ++ [in_val] }
  | .addValueQue in_val maxQueSize =>
    ∃ valueList, Leaves (timeserieTurn maxQueSize) s.valueList valueList ∧
      s' = { s with valueList := valueList ++ [in_val] }
  | .clearStat => s' = s.clearStat
  | .calculate => s' = s.calculate root

/-! ## What the statistics are -/

/-- Mean, deviation, median and extremes of values. -/
structure Described (values : List K) (value stdev mode min max : Option K) : Prop where
  value : value = some (mean values)
  stdev : ∃ d, stdev = some d ∧ d * d = squares values (mean values) / values.length
  mode : ∃ m, mode = some m ∧ IsMedian values m
  min : ∃ m, min = some m ∧ IsMin values m
  max : ∃ m, max = some m ∧ IsMax values m

/-- All measured at one time. -/
def AtOnce (points : List (K × K)) : Prop := ∀ p ∈ points, ∀ q ∈ points, p.2 = q.2

def ValueDoubleStat.Obeys (s : ValueDoubleStat K) (values : List K) : Prop :=
  s.valueList = values ∧ (values ≠ [] → Described values s.value s.stdev s.mode s.min s.max)

def ValueDoubleTimeserie.Obeys (s : ValueDoubleTimeserie K) (points : List (K × K)) : Prop :=
  s.valueList = points ∧
    (points ≠ [] → Described (points.map Prod.fst) s.value s.stdev s.mode s.min s.max ∧
      (¬AtOnce points → ∃ alpha beta, s.alpha = some alpha ∧ s.beta = some beta ∧
        LeastSquares points alpha beta))

/-- The calls return, and a `calculate` after them does what it should. -/
def StatLaws (root : Root K) (calls : List (Call K)) : Prop :=
  ∃ s, Runs (ValueDoubleStat.Step root) .start calls s ∧ (s.calculate root).Obeys (held calls)

def TimeserieLaws (root : Root K) (calls : List (Call (K × K))) : Prop :=
  ∃ s, Runs (ValueDoubleTimeserie.Step root) .start calls s ∧ (s.calculate root).Obeys (held calls)

/-! ## The window -/

variable {l r : List M} {n : Nat}

/-- The loop leaves room for one in the window. -/
theorem leaves_tail {turn : List M → List M ⊕ List M} (hn : n ≠ 0)
    (hturn : ∀ l, turn l = if n ≤ l.length then .inl l.tail else .inr l) :
    Leaves turn l r ↔ r = l.drop (l.length + 1 - n) := by
  induction l with
  | nil =>
    have hout : turn [] = .inr [] :=
      (hturn []).trans (if_neg fun hle => hn (Nat.le_zero.mp hle))
    rw [leaves_inr hout, List.drop_nil]
  | cons x l ih =>
    by_cases hle : n ≤ l.length + 1
    · have hon : turn (x :: l) = .inl l := (hturn _).trans (if_pos hle)
      rw [leaves_inl hon, ih, List.length_cons, Nat.succ_sub hle]
      rfl
    · have hout : turn (x :: l) = .inr (x :: l) := (hturn _).trans (if_neg hle)
      have hroom : l.length + 1 + 1 - n = 0 := by omega
      rw [leaves_inr hout, List.length_cons, hroom, List.drop_zero]

/-- With the one that is added, the window is full. -/
theorem window_append (hn : n ≠ 0) (l : List M) (x : M) :
    l.drop (l.length + 1 - n) ++ [x] = window n (l ++ [x]) := by
  have hle : l.length + 1 - n ≤ l.length := by omega
  rw [window, if_neg hn, List.length_append, List.length_singleton, List.drop_append_of_le_length hle]

theorem leaves_statTurn (n : Nat) (l : List M) (x : M) :
    ∃ r, Leaves (statTurn n) l r ∧ ∀ r, Leaves (statTurn n) l r → r ++ [x] = window n (l ++ [x]) := by
  by_cases hn : n = 0
  · subst hn
    have hout : statTurn 0 l = .inr l := if_neg fun h => absurd h.1 (Nat.lt_irrefl 0)
    refine ⟨l, (leaves_inr hout).mpr rfl, fun r hr => ?_⟩
    rw [(leaves_inr hout).mp hr]
    exact (if_pos rfl).symm
  · have hturn : ∀ l : List M, statTurn n l = if n ≤ l.length then .inl l.tail else .inr l := by
      intro l
      simp only [statTurn, Nat.pos_of_ne_zero hn, true_and]
    refine ⟨_, (leaves_tail hn hturn).mpr rfl, fun r hr => ?_⟩
    rw [(leaves_tail hn hturn).mp hr, window_append hn]

theorem leaves_timeserieTurn (hn : n ≠ 0) (l : List M) (x : M) :
    ∃ r, Leaves (timeserieTurn n) l r ∧
      ∀ r, Leaves (timeserieTurn n) l r → r ++ [x] = window n (l ++ [x]) := by
  have hturn : ∀ l : List M, timeserieTurn n l = if n ≤ l.length then .inl l.tail else .inr l :=
    fun l => rfl
  refine ⟨_, (leaves_tail hn hturn).mpr rfl, fun r hr => ?_⟩
  rw [(leaves_tail hn hturn).mp hr, window_append hn]

/-- No list is shorter than 0. -/
theorem not_leaves_timeserieTurn : ¬Leaves (timeserieTurn 0) l r := by
  intro hleaves
  obtain ⟨l', -, hout⟩ := hleaves.invariant (I := fun _ => True) trivial fun _ _ _ _ => trivial
  rw [timeserieTurn, if_pos (Nat.zero_le _)] at hout
  cases hout

/-! ## Runs -/

section
variable {σ : Type*} {step : σ → Call M → σ → Prop} {s s' : σ} {calls : List (Call M)}

theorem runs_held (list : σ → List M)
    (hstep : ∀ s call s', step s call s' → list s' = call.held (list s)) (h : Runs step s calls s') :
    list s' = calls.foldl Call.held (list s) := by
  induction calls generalizing s with
  | nil => exact congrArg list h
  | cons call calls ih =>
    obtain ⟨next, hcall, hcalls⟩ := h
    rw [ih hcalls, hstep s call next hcall, List.foldl_cons]

/-- Calls return when each of them does. -/
theorem runs_exists (hstep : ∀ call ∈ calls, ∀ s, ∃ s', step s call s') (s : σ) :
    ∃ s', Runs step s calls s' := by
  induction calls generalizing s with
  | nil => exact ⟨s, rfl⟩
  | cons call calls ih =>
    obtain ⟨hcall, hcalls⟩ := List.forall_mem_cons.mp hstep
    obtain ⟨next, hnext⟩ := hcall s
    obtain ⟨s', hs'⟩ := ih hcalls next
    exact ⟨s', next, hnext, hs'⟩

theorem step_of_runs (h : Runs step s calls s') : ∀ call ∈ calls, ∃ s s', step s call s' := by
  induction calls generalizing s with
  | nil => simp
  | cons call calls ih =>
    obtain ⟨next, hcall, hcalls⟩ := h
    exact List.forall_mem_cons.mpr ⟨⟨s, next, hcall⟩, ih hcalls⟩

end

section
variable {root : Root K}

theorem ValueDoubleStat.calculate_valueList (s : ValueDoubleStat K) :
    (s.calculate root).valueList = s.valueList := by
  unfold calculate
  by_cases h : s.valueList = []
  · rw [if_pos h]
  · rw [if_neg h]

theorem ValueDoubleStat.step_held (s : ValueDoubleStat K) (call : Call K) (s' : ValueDoubleStat K)
    (h : s.Step root call s') : s'.valueList = call.held s.valueList := by
  cases call with
  | addValue in_val => exact congrArg valueList h
  | addValueQue in_val maxQueSize =>
    obtain ⟨valueList, hleaves, rfl⟩ := h
    obtain ⟨-, -, hall⟩ := leaves_statTurn maxQueSize s.valueList in_val
    exact hall valueList hleaves
  | clearStat => exact congrArg valueList h
  | calculate => exact (congrArg valueList h).trans s.calculate_valueList

theorem ValueDoubleStat.step_exists (s : ValueDoubleStat K) (call : Call K) : ∃ s', s.Step root call s' := by
  cases call with
  | addValue in_val => exact ⟨_, rfl⟩
  | addValueQue in_val maxQueSize =>
    obtain ⟨valueList, hleaves, -⟩ := leaves_statTurn maxQueSize s.valueList in_val
    exact ⟨_, valueList, hleaves, rfl⟩
  | clearStat => exact ⟨_, rfl⟩
  | calculate => exact ⟨_, rfl⟩

theorem ValueDoubleTimeserie.calculate_valueList (s : ValueDoubleTimeserie K) :
    (s.calculate root).valueList = s.valueList := by
  unfold calculate
  by_cases h : s.valueList = []
  · rw [if_pos h]
  · rw [if_neg h]

theorem ValueDoubleTimeserie.step_held (s : ValueDoubleTimeserie K) (call : Call (K × K))
    (s' : ValueDoubleTimeserie K) (h : s.Step root call s') : s'.valueList = call.held s.valueList := by
  cases call with
  | addValue in_val => exact congrArg valueList h
  | addValueQue in_val maxQueSize =>
    obtain ⟨valueList, hleaves, rfl⟩ := h
    by_cases hn : maxQueSize = 0
    · subst hn
      exact absurd hleaves not_leaves_timeserieTurn
    · obtain ⟨-, -, hall⟩ := leaves_timeserieTurn hn s.valueList in_val
      exact hall valueList hleaves
  | clearStat => exact congrArg valueList h
  | calculate => exact (congrArg valueList h).trans s.calculate_valueList

/-- A call returns if its window is not of size 0. -/
theorem ValueDoubleTimeserie.step_exists_iff (s : ValueDoubleTimeserie K) (call : Call (K × K)) :
    (∃ s', s.Step root call s') ↔ ∀ in_val, call ≠ .addValueQue in_val 0 := by
  cases call with
  | addValue in_val => exact ⟨fun _ _ h => (by cases h), fun _ => ⟨_, rfl⟩⟩
  | addValueQue in_val maxQueSize =>
    constructor
    · intro h in_val' heq
      obtain ⟨s', valueList, hleaves, -⟩ := h
      cases heq
      exact not_leaves_timeserieTurn hleaves
    · intro h
      have hn : maxQueSize ≠ 0 := fun hn => h in_val (hn ▸ rfl)
      obtain ⟨valueList, hleaves, -⟩ := leaves_timeserieTurn hn s.valueList in_val
      exact ⟨_, valueList, hleaves, rfl⟩
  | clearStat => exact ⟨fun _ _ h => (by cases h), fun _ => ⟨_, rfl⟩⟩
  | calculate => exact ⟨fun _ _ h => (by cases h), fun _ => ⟨_, rfl⟩⟩

end

/-! ## Statistics of a sorted list -/

section
variable [IsStrictOrderedRing K] {values sorted : List K}

omit [IsStrictOrderedRing K] in
theorem isMedian_middle (hne : values ≠ []) (hperm : sorted.Perm values)
    (hsorted : sorted.Pairwise (· ≤ ·)) : ∃ m, middle values.length sorted = some m ∧ IsMedian values m := by
  have hpos := List.length_pos_iff.mpr hne
  have hlength := hperm.length_eq
  unfold middle
  by_cases hodd : values.length % 2 = 1
  · have hbound : values.length / 2 < sorted.length := by omega
    refine ⟨sorted[values.length / 2], ?_, sorted, hperm, hsorted, ?_⟩
    · rw [if_pos hodd, List.getElem?_eq_getElem hbound]
    · rw [if_pos hodd, List.getElem?_eq_getElem hbound]
  · have habove : values.length / 2 < sorted.length := by omega
    have hbelow : values.length / 2 - 1 < sorted.length := by omega
    refine ⟨(sorted[values.length / 2 - 1] + sorted[values.length / 2]) / (2 : ℕ), ?_,
      sorted, hperm, hsorted, ?_⟩
    · rw [if_neg hodd, List.getElem?_eq_getElem hbelow, List.getElem?_eq_getElem habove]
      rfl
    · rw [if_neg hodd]
      exact ⟨_, _, List.getElem?_eq_getElem hbelow, List.getElem?_eq_getElem habove, rfl⟩

omit [LinearOrder K] [IsStrictOrderedRing K] in
theorem mean_perm (h : sorted.Perm values) : sorted.sum / values.length = mean values := by
  rw [mean, h.sum_eq]

omit [LinearOrder K] [IsStrictOrderedRing K] in
theorem squares_perm (h : sorted.Perm values) (v : K) : squares sorted v = squares values v :=
  (h.map _).sum_eq

/-- The root of the mean squared deviation, and of nothing else. -/
theorem sqrt_mul_self_iff (root : Root K) (hne : values ≠ []) (v : K) :
    (∃ d, some (root.sqrt (squares values v / values.length)) = some d ∧
      d * d = squares values (mean values) / values.length) ↔ v = mean values := by
  have hlength : (0 : K) < values.length := Nat.cast_pos.mpr (List.length_pos_iff.mpr hne)
  have hroot := root.mul_self _ (div_nonneg (squares_nonneg values v) hlength.le)
  constructor
  · intro h
    obtain ⟨d, hd, hsquare⟩ := h
    rw [← Option.some.inj hd, hroot] at hsquare
    exact (squares_eq_iff hne).mp ((div_left_inj' hlength.ne').mp hsquare)
  · intro h
    exact ⟨_, rfl, hroot.trans (h ▸ rfl)⟩

/-! ## `ValueDoubleStat` -/

omit [LinearOrder K] [IsStrictOrderedRing K] in
theorem foldl_turn (l : List K) (v sum stdev : K) :
    l.foldl (ValueDoubleStat.turn (some v)) (sum, some stdev) = (sum + l.sum, some (stdev + squares l v)) := by
  induction l generalizing sum stdev with
  | nil => simp [squares]
  | cons x l ih =>
    have hturn : ValueDoubleStat.turn (some v) (sum, some stdev) x =
        (sum + x, some (stdev + (x - v) * (x - v))) := rfl
    have hsquares : squares (x :: l) v = (x - v) * (x - v) + squares l v := rfl
    rw [List.foldl_cons, hturn, ih, List.sum_cons, hsquares, add_assoc, add_assoc]

omit [LinearOrder K] [IsStrictOrderedRing K] in
/-- What is no number deviates by no number. -/
theorem foldl_turn_none (l : List K) (value : Option K) (sum : K) (stdev : Option K)
    (h : stdev = none ∨ value = none ∧ l ≠ []) :
    l.foldl (ValueDoubleStat.turn value) (sum, stdev) = (sum + l.sum, none) := by
  induction l generalizing sum stdev with
  | nil =>
    have hnone : stdev = none := h.resolve_right fun h => h.2 rfl
    simp [hnone]
  | cons x l ih =>
    have hturn : ValueDoubleStat.turn value (sum, stdev) x = (sum + x, none) := by
      rcases h with rfl | h
      · rfl
      · rw [h.1]
        cases stdev <;> rfl
    rw [List.foldl_cons, hturn, ih (sum + x) none (.inl rfl), List.sum_cons, add_assoc]

/-- A calculation does what it should, if the value is the mean already. -/
theorem ValueDoubleStat.obeys_iff (root : Root K) (s : ValueDoubleStat K) (hvalues : s.valueList = values) :
    (s.calculate root).Obeys values ↔ values = [] ∨ s.value = some (mean values) := by
  subst hvalues
  by_cases hne : s.valueList = []
  · exact ⟨fun _ => .inl hne, fun _ => ⟨s.calculate_valueList, fun h => absurd hne h⟩⟩
  have hperm : (s.valueList.mergeSort fun a b => decide (a ≤ b)).Perm s.valueList := List.mergeSort_perm _ _
  have hsorted : (s.valueList.mergeSort fun a b => decide (a ≤ b)).Pairwise (· ≤ ·) :=
    List.pairwise_mergeSort' _ s.valueList
  generalize hsort : (s.valueList.mergeSort fun a b => decide (a ≤ b)) = sorted at hperm hsorted
  have hcalc : s.calculate root = { s with
      min := sorted.head?
      max := sorted.getLast?
      numMes := s.valueList.length
      value := some ((sorted.foldl (turn s.value) (0, some 0)).1 / s.valueList.length)
      stdev := (sorted.foldl (turn s.value) (0, some 0)).2.map fun stdev =>
        root.sqrt (stdev / s.valueList.length)
      mode := middle s.valueList.length sorted } := by
    rw [← hsort]
    exact if_neg hne
  rw [hcalc]
  have hne' : sorted ≠ [] := fun h => hne (h ▸ hperm).nil_eq.symm
  cases hvalue : s.value with
  | none =>
    rw [foldl_turn_none sorted none 0 (some 0) (.inr ⟨rfl, hne'⟩)]
    constructor
    · intro hobeys
      obtain ⟨d, hd, -⟩ := (hobeys.2 hne).stdev
      cases hd
    · intro h
      cases h.resolve_left hne
  | some v =>
    have hmean := mean_perm hperm
    rw [foldl_turn, zero_add, zero_add, hmean, squares_perm hperm]
    constructor
    · intro hobeys
      exact .inr (congrArg some ((sqrt_mul_self_iff root hne v).mp (hobeys.2 hne).stdev))
    · intro h
      have hv := Option.some.inj (h.resolve_left hne)
      refine ⟨rfl, fun _ => ⟨rfl, (sqrt_mul_self_iff root hne v).mpr hv, ?_, ?_, ?_⟩⟩
      · exact isMedian_middle hne hperm hsorted
      · exact isMin_head hne hperm hsorted
      · exact isMax_getLast hne hperm hsorted

/-! ## `ValueDoubleTimeserie` -/

omit [Field K] [IsStrictOrderedRing K] in
theorem pairLe_iff {a b : K × K} : pairLe a b = true ↔ a.1 < b.1 ∨ a.1 = b.1 ∧ a.2 ≤ b.2 := by
  simp [pairLe]

omit [Field K] [IsStrictOrderedRing K] in
theorem pairLe_trans (a b c : K × K) (hab : pairLe a b = true) (hbc : pairLe b c = true) :
    pairLe a c = true := by
  rw [pairLe_iff] at *
  rcases hab with hab | hab
  · rcases hbc with hbc | hbc
    · exact .inl (hab.trans hbc)
    · exact .inl (hab.trans_eq hbc.1)
  · rcases hbc with hbc | hbc
    · exact .inl (hab.1.trans_lt hbc)
    · exact .inr ⟨hab.1.trans hbc.1, hab.2.trans hbc.2⟩

omit [Field K] [IsStrictOrderedRing K] in
theorem pairLe_total (a b : K × K) : (pairLe a b || pairLe b a) = true := by
  rw [Bool.or_eq_true_iff, pairLe_iff, pairLe_iff]
  rcases lt_trichotomy a.1 b.1 with h | h | h
  · exact .inl (.inl h)
  · exact (le_total a.2 b.2).imp (fun hle => .inr ⟨h, hle⟩) fun hle => .inr ⟨h.symm, hle⟩
  · exact .inr (.inl h)

omit [Field K] [IsStrictOrderedRing K] in
/-- Pairs in their order have their first numbers in order. -/
theorem pairwise_fst {points : List (K × K)} (h : points.Pairwise fun a b => pairLe a b = true) :
    (points.map Prod.fst).Pairwise (· ≤ ·) := by
  rw [List.pairwise_map]
  refine h.imp fun {a b} hle => ?_
  exact (pairLe_iff.mp hle).elim le_of_lt fun heq => heq.1.le

omit [LinearOrder K] [IsStrictOrderedRing K] in
theorem foldl_sums (points : List (K × K)) (acc : K × K) :
    points.foldl (fun acc p => (acc.1 + p.1, acc.2 + p.2)) acc =
      (acc.1 + (points.map Prod.fst).sum, acc.2 + (points.map Prod.snd).sum) := by
  induction points generalizing acc with
  | nil => simp
  | cons p points ih => simp only [List.foldl_cons, ih, List.map_cons, List.sum_cons, add_assoc]

omit [LinearOrder K] [IsStrictOrderedRing K] in
theorem foldl_sumsTurn (points : List (K × K)) (v c : K) (acc : Sums K) :
    points.foldl (Sums.turn v c) acc =
      ⟨acc.stdev + squares (points.map Prod.fst) v,
        acc.sx + ((points.map Prod.snd).sum - points.length * c),
        acc.alpha + products points c, acc.alpha2 + squares (points.map Prod.snd) c⟩ := by
  induction points generalizing acc with
  | nil => simp [squares, products]
  | cons p points ih =>
    have hvalues : squares ((p :: points).map Prod.fst) v =
        (p.1 - v) * (p.1 - v) + squares (points.map Prod.fst) v := rfl
    have htimes : squares ((p :: points).map Prod.snd) c =
        (p.2 - c) * (p.2 - c) + squares (points.map Prod.snd) c := rfl
    have hproducts : products (p :: points) c = (p.2 - c) * p.1 + products points c := rfl
    rw [List.foldl_cons, ih, hvalues, htimes, hproducts, List.map_cons, List.sum_cons, List.length_cons]
    simp only [Sums.turn, Sums.mk.injEq]
    push_cast
    refine ⟨?_, ?_, ?_, ?_⟩ <;> ring

omit [LinearOrder K] [IsStrictOrderedRing K] in
theorem products_perm {points points' : List (K × K)} (h : points.Perm points') (c : K) :
    products points c = products points' c :=
  (h.map _).sum_eq

/-- Over times that are not all equal, the slope is that of the line of least squares; the constant
term is, if the slope is 0. -/
theorem line_iff {points : List (K × K)} (hne : points ≠ []) (htimes : ¬AtOnce points) :
    (∃ alpha beta,
      (divide (products points (meanTime points)) (squares (points.map Prod.snd) (meanTime points))).map
          (fun beta => ((points.map Prod.fst).sum - beta * products points (meanTime points)) / points.length) =
        some alpha ∧
      divide (products points (meanTime points)) (squares (points.map Prod.snd) (meanTime points)) =
        some beta ∧ LeastSquares points alpha beta) ↔
      products points (meanTime points) = 0 := by
  have hsquares : squares (points.map Prod.snd) (meanTime points) ≠ 0 := by
    intro hzero
    refine htimes fun p hp q hq => ?_
    have hall := squares_eq_zero hzero
    exact (hall p.2 (List.mem_map_of_mem hp)).trans (hall q.2 (List.mem_map_of_mem hq)).symm
  have hlength : (points.length : K) ≠ 0 := length_ne_zero hne
  have hmean : mean (points.map Prod.fst) = (points.map Prod.fst).sum / points.length := by
    rw [mean, List.length_map]
  have hdivide : divide (products points (meanTime points))
      (squares (points.map Prod.snd) (meanTime points)) =
      some (products points (meanTime points) / squares (points.map Prod.snd) (meanTime points)) :=
    if_neg hsquares
  rw [hdivide]
  constructor
  · intro h
    obtain ⟨alpha, beta, halpha, hbeta, hleast⟩ := h
    have hline := ((leastSquares_iff points hne hsquares).mp hleast).1
    rw [← Option.some.inj halpha, hmean, div_left_inj' hlength, sub_eq_self, mul_eq_zero] at hline
    exact hline.elim (fun hzero => (div_eq_zero_iff.mp hzero).resolve_right hsquares) id
  · intro hzero
    refine ⟨mean (points.map Prod.fst), _, ?_, rfl, (leastSquares_iff points hne hsquares).mpr ⟨rfl, rfl⟩⟩
    rw [hzero, Option.map_some, mul_zero, sub_zero, hmean]

/-- A calculation of a time series does what it should, if all is measured at one time or the slope
is 0. -/
theorem ValueDoubleTimeserie.obeys_iff (root : Root K) (s : ValueDoubleTimeserie K)
    {points : List (K × K)} (hpoints : s.valueList = points) :
    (s.calculate root).Obeys points ↔
      points = [] ∨ AtOnce points ∨ products points (meanTime points) = 0 := by
  subst hpoints
  by_cases hne : s.valueList = []
  · exact ⟨fun _ => .inl hne, fun _ => ⟨s.calculate_valueList, fun h => absurd hne h⟩⟩
  have hpairs : (s.valueList.mergeSort pairLe).Perm s.valueList := List.mergeSort_perm _ _
  have hperm := hpairs.map Prod.fst
  have hsorted := pairwise_fst (List.pairwise_mergeSort pairLe_trans pairLe_total s.valueList)
  have htimes := (hpairs.map Prod.snd).sum_eq
  have hvalues : s.valueList.map Prod.fst ≠ [] := by simpa using hne
  have hmean : (s.valueList.map Prod.fst).sum / s.valueList.length = mean (s.valueList.map Prod.fst) := by
    rw [mean, List.length_map]
  have hmeanTime : (s.valueList.map Prod.snd).sum / s.valueList.length = meanTime s.valueList := by
    rw [meanTime, mean, List.length_map]
  have hcenter : (s.valueList.map Prod.snd).sum - s.valueList.length * meanTime s.valueList = 0 := by
    rw [← hmeanTime, mul_div_cancel₀ _ (length_ne_zero hne), sub_self]
  have hcalc : s.calculate root = { s with
      min := (s.valueList.mergeSort pairLe).head?.map Prod.fst
      max := (s.valueList.mergeSort pairLe).getLast?.map Prod.fst
      numMes := s.valueList.length
      value := some (mean (s.valueList.map Prod.fst))
      stdev := some (root.sqrt (squares (s.valueList.map Prod.fst) (mean (s.valueList.map Prod.fst)) /
        s.valueList.length))
      beta := divide (products s.valueList (meanTime s.valueList))
        (squares (s.valueList.map Prod.snd) (meanTime s.valueList))
      alpha := (divide (products s.valueList (meanTime s.valueList))
        (squares (s.valueList.map Prod.snd) (meanTime s.valueList))).map fun beta =>
          ((s.valueList.map Prod.fst).sum - beta * products s.valueList (meanTime s.valueList)) /
            s.valueList.length
      mode := middle s.valueList.length ((s.valueList.mergeSort pairLe).map Prod.fst) } := by
    rw [calculate, if_neg hne]
    simp only [foldl_sums, foldl_sumsTurn, zero_add, hperm.sum_eq, htimes, hmean, hmeanTime, hpairs.length_eq,
      hcenter, squares_perm hperm, squares_perm (hpairs.map Prod.snd), products_perm hpairs, zero_mul, zero_div,
      sub_zero]
  have hdescribed : Described (s.valueList.map Prod.fst) (s.calculate root).value (s.calculate root).stdev
      (s.calculate root).mode (s.calculate root).min (s.calculate root).max := by
    rw [hcalc]
    refine ⟨rfl, ?_, ?_, ?_, ?_⟩
    · have hroot := (sqrt_mul_self_iff root hvalues _).mpr rfl
      rwa [List.length_map] at hroot ⊢
    · have hmedian := isMedian_middle hvalues hperm hsorted
      rwa [List.length_map] at hmedian
    · have hmin := isMin_head hvalues hperm hsorted
      rwa [List.head?_map] at hmin
    · have hmax := isMax_getLast hvalues hperm hsorted
      rwa [List.getLast?_map] at hmax
  constructor
  · intro hobeys
    refine or_iff_not_imp_left.mpr fun hne => or_iff_not_imp_left.mpr fun hapart => ?_
    have hline := (hobeys.2 hne).2 hapart
    rw [hcalc] at hline
    exact (line_iff hne hapart).mp hline
  · intro h
    refine ⟨s.calculate_valueList, fun hne => ⟨hdescribed, fun hapart => ?_⟩⟩
    have hline := (line_iff hne hapart).mpr ((h.resolve_left hne).resolve_left hapart)
    rw [hcalc]
    exact hline

/-! ## All calls -/

/-- The value was the mean of what is held before it was calculated. -/
def StatFits (root : Root K) (calls : List (Call K)) : Prop :=
  held calls = [] ∨
    ∃ s, Runs (ValueDoubleStat.Step root) .start calls s ∧ s.value = some (mean (held calls))

/-- No window is of size 0, and what is held is of one time, or without a slope. -/
def TimeserieFits (calls : List (Call (K × K))) : Prop :=
  (∀ in_val, .addValueQue in_val 0 ∉ calls) ∧
    (held calls = [] ∨ AtOnce (held calls) ∨ products (held calls) (meanTime (held calls)) = 0)

theorem statLaws_iff (root : Root K) (calls : List (Call K)) : StatLaws root calls ↔ StatFits root calls := by
  have hheld : ∀ s, Runs (ValueDoubleStat.Step root) .start calls s → s.valueList = held calls :=
    fun s => runs_held ValueDoubleStat.valueList ValueDoubleStat.step_held
  constructor
  · intro h
    obtain ⟨s, hruns, hobeys⟩ := h
    exact ((s.obeys_iff root (hheld s hruns)).mp hobeys).imp_right fun hvalue => ⟨s, hruns, hvalue⟩
  · intro h
    rcases h with hnone | ⟨s, hruns, hvalue⟩
    · obtain ⟨s, hruns⟩ := runs_exists (fun call _ s => ValueDoubleStat.step_exists s call)
        (ValueDoubleStat.start (K := K))
      exact ⟨s, hruns, (s.obeys_iff root (hheld s hruns)).mpr (.inl hnone)⟩
    · exact ⟨s, hruns, (s.obeys_iff root (hheld s hruns)).mpr (.inr hvalue)⟩

theorem timeserieLaws_iff (root : Root K) (calls : List (Call (K × K))) :
    TimeserieLaws root calls ↔ TimeserieFits calls := by
  have hheld : ∀ s, Runs (ValueDoubleTimeserie.Step root) .start calls s → s.valueList = held calls :=
    fun s => runs_held ValueDoubleTimeserie.valueList ValueDoubleTimeserie.step_held
  constructor
  · intro h
    obtain ⟨s, hruns, hobeys⟩ := h
    refine ⟨fun in_val hmem => ?_, (s.obeys_iff root (hheld s hruns)).mp hobeys⟩
    obtain ⟨before, hbefore⟩ := step_of_runs hruns _ hmem
    exact (before.step_exists_iff _).mp hbefore in_val rfl
  · intro h
    obtain ⟨hwindows, hline⟩ := h
    have hreturn : ∀ call ∈ calls, ∀ s, ∃ s', ValueDoubleTimeserie.Step root s call s' := by
      intro call hcall s
      refine (s.step_exists_iff call).mpr fun in_val heq => ?_
      exact hwindows in_val (heq ▸ hcall)
    obtain ⟨s, hruns⟩ := runs_exists hreturn ValueDoubleTimeserie.start
    exact ⟨s, hruns, (s.obeys_iff root (hheld s hruns)).mpr hline⟩

/-- The laws of both classes, after any calls. -/
theorem laws_iff (root : Root K) (calls : List (Call K)) (series : List (Call (K × K))) :
    (StatLaws root calls ↔ StatFits root calls) ∧ (TimeserieLaws root series ↔ TimeserieFits series) :=
  ⟨statLaws_iff root calls, timeserieLaws_iff root series⟩

end

/-! ## Real numbers -/

noncomputable def Root.real : Root ℝ := ⟨Real.sqrt, fun _ => Real.mul_self_sqrt⟩

theorem laws_real_twice :
    (StatLaws Root.real [.addValue 1, .calculate] ↔ StatFits Root.real [.addValue 1, .calculate]) ∧
      (TimeserieLaws Root.real [.addValueQue (1, 0) 2] ↔
        TimeserieFits [.addValueQue ((1 : ℝ), (0 : ℝ)) 2]) :=
  laws_iff Root.real _ _

/-- The first deviation is taken from a value that is not set, the constant term is wrong for a
line that rises, and a window of size 0 never has room. -/
theorem laws_broken :
    ¬StatLaws Root.real [.addValue 1] ∧
      ¬TimeserieLaws Root.real [.addValue (1, 0), .addValue (2, 1)] ∧
      ¬TimeserieLaws Root.real [.addValueQue (1, 0) 0] := by
  refine ⟨fun h => ?_, fun h => ?_, fun h => ?_⟩
  · obtain ⟨s, ⟨_, hadd, rfl⟩, hobeys⟩ := h
    have hlist : s.valueList = [1] := congrArg ValueDoubleStat.valueList hadd
    have hvalue : s.value = none := congrArg ValueDoubleStat.value hadd
    rcases (s.obeys_iff Root.real hlist).mp hobeys with hnil | hmean
    · cases hnil
    · rw [hvalue] at hmean
      cases hmean
  · have hheld : held [.addValue ((1 : ℝ), (0 : ℝ)), .addValue (2, 1)] = [(1, 0), (2, 1)] := rfl
    obtain ⟨-, hfits⟩ := (timeserieLaws_iff Root.real _).mp h
    rw [hheld] at hfits
    rcases hfits with hnil | honce | hslope
    · cases hnil
    · have hequal := honce (1, 0) (by simp) (2, 1) (by simp)
      norm_num at hequal
    · norm_num [products, meanTime, mean] at hslope
  · exact ((timeserieLaws_iff Root.real _).mp h).1 (1, 0) (List.mem_singleton_self _)

end Rts2.Values.ValueStat
