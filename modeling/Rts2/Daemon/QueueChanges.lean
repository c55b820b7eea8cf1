import Rts2.Daemon.SetValue
import Rts2.Lib.Deferred
import Rts2.Lib.Run
import Rts2.Status

/-! # Queued changes of values

A value is registered with a mask of device states in which it may not be
changed. A change that arrives in such a state is put on `queValues`; whenever
the device state changes, `checkQueChanges` carries out the ones whose mask is
clear. The operand of a change is built when the change arrives. -/
namespace Rts2.Daemon
open Rts2.Lib

/-! ## The device -/

/-- A request to change a value: an `X` command, `changeValue` or a value from a
file. `operand` makes the new value from the present one, as `duplicateValue`
and the reading of the parameters do, or fails. `hook` is what the `setValue`
of the driver returns for this request. -/
structure Request (K V : Type) where
  value : K
  operation : Char
  operand : V → Option V
  hook : V → V → Int

/-- A `ValueQue`: the value, the operator and the hook are those of the request. -/
structure ValueQue (K V : Type) where
  request : Request K V
  newValue : V

/-- What became of a request. -/
inductive Fate where
  | refused
  | alreadySet
  | carriedOut
  deriving DecidableEq, Repr

/-- An entry of the record of requests that wait no longer, with the state the
device was in. The device keeps no such record. -/
structure Handled (K V : Type) where
  request : Request K V
  state : Status
  fate : Fate

/-- A `Device`: the contents of its values and their state conditions, its
state, and the queued changes. -/
structure Device (K V : Type) where
  value : K → V
  stateCondition : K → Status
  state : Status
  queValues : List (ValueQue K V)
  handled : List (Handled K V)

variable {K V : Type}

/-- A device before the first request. -/
def Device.start (value : K → V) (stateCondition : K → Status) (state : Status) : Device K V :=
  ⟨value, stateCondition, state, [], []⟩

/-- `Daemon::queValueChange`. -/
def Device.queValueChange (s : Device K V) (k : K) (fakeState : Status) : Bool :=
  s.stateCondition k &&& fakeState ≠ 0#32

/-- `ValueQueVector::contains`. -/
def Device.contains [DecidableEq K] (s : Device K V) (k : K) : Bool :=
  s.queValues.any fun q => q.request.value = k

/-- Enters a request in the record. -/
def Device.handle (s : Device K V) (r : Request K V) (fate : Fate) : Device K V :=
  { s with handled := s.handled ++ [⟨r, s.state, fate⟩] }

variable [DecidableEq K] [ValueOps V]

/-- `Daemon::doSetValue`. -/
def Device.doSetValue (s : Device K V) (r : Request K V) (newValue : V) : Int × Device K V :=
  let result := Daemon.doSetValue r.hook (s.value r.value) r.operation newValue
  (result.1,
    { s with value := Function.update s.value r.value result.2 }.handle r .carriedOut)

/-- `Daemon::setCondValue`. -/
def Device.setCondValue (s : Device K V) (r : Request K V) (newValue : V) : Int × Device K V :=
  if (r.operation ≠ '=' ∨ ValueOps.isEqual (s.value r.value) newValue = false ∨
      s.contains r.value) ∧ s.queValueChange r.value s.state then
    (-1, { s with queValues := s.queValues ++ [⟨r, newValue⟩] })
  else if r.operation = '=' ∧ ValueOps.isEqual (s.value r.value) newValue then
    (0, s.handle r .alreadySet)
  else s.doSetValue r newValue

/-- `Daemon::setValue` of an `X` command, and `Daemon::changeValue`. -/
def Device.setValue (s : Device K V) (r : Request K V) : Int × Device K V :=
  match r.operand (s.value r.value) with
  | none => (-2, s.handle r .refused)
  | some newValue => s.setCondValue r newValue

/-- The loop of `Device::checkQueChanges` over the entries not looked at yet. -/
def Device.releaseFrom (s : Device K V) (fakeState : Status) :
    List (ValueQue K V) → Device K V
  | [] => s
  | q :: rest =>
    if s.queValueChange q.request.value fakeState then
      let t := s.releaseFrom fakeState rest
      { t with queValues := q :: t.queValues }
    else (s.doSetValue q.request q.newValue).2.releaseFrom fakeState rest

/-- `Device::checkQueChanges`. The BOP message it ends with is sent to the
clients and changes no value. -/
def Device.checkQueChanges (s : Device K V) (fakeState : Status) : Device K V :=
  { s with queValues := [] }.releaseFrom fakeState s.queValues

/-- `Daemon::setState` with `Device::stateChanged`. -/
def Device.setState (s : Device K V) (newState : Status) : Device K V :=
  if s.state = newState then s
  else { s with state := newState }.checkQueChanges newState

/-! ## Runs -/

/-- A request arrives, or the state of the device changes. -/
inductive Event (K V : Type) where
  | request (r : Request K V)
  | state (newState : Status)

def step (s : Device K V) : Event K V → Device K V
  | .request r => (s.setValue r).2
  | .state newState => s.setState newState

/-- The requests of a run, in the order they arrive. -/
def requests : List (Event K V) → List (Request K V)
  | [] => []
  | .request r :: events => r :: requests events
  | .state _ :: events => requests events

/-- What a request makes of a value it is carried out on at once. -/
def Request.result (r : Request K V) (v : V) : V :=
  match r.operand v with
  | none => v
  | some newValue => (doSetValue r.hook v r.operation newValue).2

/-- The request as an operation on the store of values. -/
def Request.atOnce (r : Request K V) : Operation K V := ⟨r.value, r.result⟩

/-- The queued change as an operation on the store of values. -/
def ValueQue.later (q : ValueQue K V) : Operation K V :=
  ⟨q.request.value, fun v => (doSetValue q.request.hook v q.request.operation q.newValue).2⟩

/-- The values when all that is queued has been carried out. -/
def Device.settled (s : Device K V) : K → V :=
  Lib.settled s.value (s.queValues.map ValueQue.later)

/-- A request builds the same operand from the value as it is and from the value
as it will be when the queued changes have been carried out. -/
def SameOperand (s : Device K V) : Event K V → Prop
  | .request r => r.operand (s.value r.value) = r.operand (s.settled r.value)
  | .state _ => True

instance [DecidableEq V] (s : Device K V) : DecidablePred (SameOperand s)
  | .request r =>
    inferInstanceAs (Decidable (r.operand (s.value r.value) = r.operand (s.settled r.value)))
  | .state _ => isTrue trivial

/-! ## The queue -/

section Fields
variable (s : Device K V) (r : Request K V) (newValue : V)

@[simp] theorem doSetValue_state : (s.doSetValue r newValue).2.state = s.state := rfl
@[simp] theorem doSetValue_queValues :
    (s.doSetValue r newValue).2.queValues = s.queValues := rfl
@[simp] theorem doSetValue_stateCondition :
    (s.doSetValue r newValue).2.stateCondition = s.stateCondition := rfl
@[simp] theorem doSetValue_handled :
    (s.doSetValue r newValue).2.handled = s.handled ++ [⟨r, s.state, .carriedOut⟩] := rfl

/-- `doSetValue` is the operation `later` of the queued change. -/
theorem doSetValue_value :
    (s.doSetValue r newValue).2.value = carryOut s.value (ValueQue.later ⟨r, newValue⟩) := rfl

end Fields

/-- The handled requests of one value, but for the refused ones. -/
def Device.handledAt (s : Device K V) (k : K) : List (Request K V) :=
  (s.handled.filter fun h => h.request.value = k ∧ h.fate ≠ .refused).map (·.request)

/-- The requests of one value among queued changes. -/
def queuedAt (qs : List (ValueQue K V)) (k : K) : List (Request K V) :=
  (qs.filter fun q => q.request.value = k).map (·.request)

/-- All requests, handled or queued. -/
def Device.all (s : Device K V) : List (Request K V) :=
  s.handled.map (·.request) ++ s.queValues.map (·.request)

/-- Nothing was carried out in a state its value may not be changed in. -/
def Device.Allowed (s : Device K V) : Prop :=
  ∀ h ∈ s.handled, h.fate = .carriedOut → s.queValueChange h.request.value h.state = false

/-- Whatever waits is blocked by the state of the device. -/
def Device.Blocked (s : Device K V) : Prop :=
  ∀ q ∈ s.queValues, s.queValueChange q.request.value s.state = true

section Release
variable (fakeState : Status)

@[simp] theorem releaseFrom_stateCondition (s : Device K V) (qs : List (ValueQue K V)) :
    (s.releaseFrom fakeState qs).stateCondition = s.stateCondition := by
  induction qs generalizing s with
  | nil => rfl
  | cons q rest ih =>
    simp only [Device.releaseFrom]
    split
    · exact ih s
    · rw [ih, doSetValue_stateCondition]

@[simp] theorem releaseFrom_state (s : Device K V) (qs : List (ValueQue K V)) :
    (s.releaseFrom fakeState qs).state = s.state := by
  induction qs generalizing s with
  | nil => rfl
  | cons q rest ih =>
    simp only [Device.releaseFrom]
    split
    · exact ih s
    · rw [ih, doSetValue_state]

/-- The loop is a release of the keys the state does not block. -/
theorem releaseFrom_release {s : Device K V} (hs : s.queValues = []) (qs : List (ValueQue K V)) :
    ((s.releaseFrom fakeState qs).value,
      (s.releaseFrom fakeState qs).queValues.map ValueQue.later) =
      release (fun k => s.queValueChange k fakeState = true) s.value
        (qs.map ValueQue.later) := by
  induction qs generalizing s with
  | nil => simp [Device.releaseFrom, release, hs]
  | cons q rest ih =>
    by_cases hq : s.queValueChange q.request.value fakeState = true
    · rw [List.map_cons, release_of_blocked hq, ← ih hs]
      simp only [Device.releaseFrom, hq, if_true, List.map_cons]
    · have h := ih (s := (s.doSetValue q.request q.newValue).2) (by simpa using hs)
      rw [List.map_cons, release_of_not_blocked hq]
      simp only [Device.releaseFrom, if_neg hq]
      exact h

/-- What the loop leaves in the queue is blocked. -/
theorem releaseFrom_blocked {s : Device K V} (hs : s.queValues = []) (qs : List (ValueQue K V)) :
    ∀ q ∈ (s.releaseFrom fakeState qs).queValues,
      s.queValueChange q.request.value fakeState = true := by
  induction qs generalizing s with
  | nil => simp [Device.releaseFrom, hs]
  | cons q rest ih =>
    by_cases hq : s.queValueChange q.request.value fakeState = true
    · simpa [Device.releaseFrom, hq] using ih hs
    · simp only [Device.releaseFrom, hq]
      exact ih (s := (s.doSetValue q.request q.newValue).2) (by simpa using hs)

/-- The loop moves requests from the queue to the record. -/
theorem releaseFrom_all {s : Device K V} (hs : s.queValues = []) (qs : List (ValueQue K V)) :
    (s.releaseFrom fakeState qs).all.Perm (s.handled.map (·.request) ++ qs.map (·.request)) := by
  induction qs generalizing s with
  | nil => simp [Device.releaseFrom, Device.all, hs]
  | cons q rest ih =>
    by_cases hq : s.queValueChange q.request.value fakeState = true
    · have h := ih hs
      simp only [Device.releaseFrom, hq, if_true, Device.all, List.map_cons] at h ⊢
      exact List.perm_middle.trans ((h.cons _).trans List.perm_middle.symm)
    · have h := ih (s := (s.doSetValue q.request q.newValue).2) (by simpa using hs)
      simpa [Device.releaseFrom, hq] using h

theorem doSetValue_handledAt (s : Device K V) (r : Request K V) (newValue : V) (k : K) :
    (s.doSetValue r newValue).2.handledAt k =
      s.handledAt k ++ if r.value = k then [r] else [] := by
  by_cases hk : r.value = k <;> simp [Device.handledAt, List.filter_append, hk]

/-- The loop carries out nothing for a blocked value. -/
theorem releaseFrom_handledAt {s : Device K V} {k : K}
    (hk : s.queValueChange k fakeState = true) (qs : List (ValueQue K V)) :
    (s.releaseFrom fakeState qs).handledAt k = s.handledAt k := by
  induction qs generalizing s with
  | nil => rfl
  | cons q rest ih =>
    by_cases hq : s.queValueChange q.request.value fakeState = true
    · simpa only [Device.releaseFrom, hq, if_true, Device.handledAt] using ih hk
    · have hne : q.request.value ≠ k := fun he => hq (he ▸ hk)
      simp only [Device.releaseFrom, hq]
      rw [if_neg (by simp), ih (s := (s.doSetValue q.request q.newValue).2) hk,
        doSetValue_handledAt, if_neg hne, List.append_nil]

/-- The loop keeps the order of the requests of one value. -/
theorem releaseFrom_order {s : Device K V} (hs : s.queValues = []) (qs : List (ValueQue K V))
    (k : K) :
    (s.releaseFrom fakeState qs).handledAt k ++
        queuedAt (s.releaseFrom fakeState qs).queValues k =
      s.handledAt k ++ queuedAt qs k := by
  induction qs generalizing s with
  | nil => simp [Device.releaseFrom, queuedAt, hs]
  | cons q rest ih =>
    by_cases hq : s.queValueChange q.request.value fakeState = true
    · have h := ih hs
      simp only [Device.releaseFrom, hq, if_true]
      by_cases hk : q.request.value = k
      · -- the value is blocked, so all its requests stay in the queue
        subst hk
        have hsame := releaseFrom_handledAt fakeState hq rest
        rw [hsame, List.append_cancel_left_eq] at h
        have hgoal : s.handledAt q.request.value ++
            queuedAt (q :: (s.releaseFrom fakeState rest).queValues) q.request.value =
            s.handledAt q.request.value ++ queuedAt (q :: rest) q.request.value := by
          simp only [queuedAt, List.filter_cons, decide_true, if_true, List.map_cons] at h ⊢
          rw [h]
        rw [← hsame] at hgoal ⊢
        exact hgoal
      · simpa [queuedAt, hk, Device.handledAt] using h
    · have h := ih (s := (s.doSetValue q.request q.newValue).2) (by simpa using hs)
      simp only [Device.releaseFrom, hq]
      rw [if_neg (by simp), h, doSetValue_handledAt]
      by_cases hk : q.request.value = k <;> simp [queuedAt, hk]

/-- What the loop carries out is allowed. -/
theorem releaseFrom_allowed {s : Device K V} (hstate : s.state = fakeState) (h : s.Allowed)
    (qs : List (ValueQue K V)) : (s.releaseFrom fakeState qs).Allowed := by
  induction qs generalizing s with
  | nil => exact h
  | cons q rest ih =>
    by_cases hq : s.queValueChange q.request.value fakeState = true
    · simp only [Device.releaseFrom, hq, if_true]
      exact ih hstate h
    · simp only [Device.releaseFrom, hq]
      refine ih (by simpa using hstate) fun e he hfate => ?_
      rw [doSetValue_handled, List.mem_append, List.mem_singleton] at he
      rcases he with hold | rfl
      · exact h e hold hfate
      · simpa [Device.queValueChange, hstate] using hq

end Release

/-! ## One step -/

/-- What holds of a device between two events, where `before` are the requests
that have arrived: nothing that waits could be carried out now. -/
structure Device.Orderly (s : Device K V) (before : List (Request K V)) : Prop where
  blocked : s.Blocked
  allowed : s.Allowed
  all : s.all.Perm before
  order : ∀ k, (s.handledAt k ++ queuedAt s.queValues k).Sublist
    (before.filter fun r => r.value = k)

omit [ValueOps V] in
/-- In an orderly device a value that may be changed has no queued change. -/
theorem Device.Orderly.idle {s : Device K V} {before : List (Request K V)} (h : s.Orderly before)
    {k : K} (hk : s.queValueChange k s.state = false) :
    ∀ q ∈ s.queValues, q.request.value ≠ k := by
  intro q hq he
  have hblocked := h.blocked q hq
  rw [he, hk] at hblocked
  cases hblocked

omit [ValueOps V] in
theorem queuedAt_idle {qs : List (ValueQue K V)} {k : K}
    (h : ∀ q ∈ qs, q.request.value ≠ k) : queuedAt qs k = [] := by
  rw [queuedAt, List.filter_eq_nil_iff.mpr fun q hq => by simpa using h q hq, List.map_nil]

/-- A change of state carries out, in order, what it unblocks. -/
theorem orderly_setState {s : Device K V} {before : List (Request K V)} (h : s.Orderly before)
    (newState : Status) : (s.setState newState).Orderly before := by
  unfold Device.setState Device.checkQueChanges
  split
  · exact h
  · constructor
    · intro q hq
      have hwait := releaseFrom_blocked newState rfl s.queValues q hq
      simpa [Device.queValueChange] using hwait
    · exact releaseFrom_allowed newState (s := { s with state := newState, queValues := [] }) rfl
        h.allowed s.queValues
    · exact (releaseFrom_all newState rfl s.queValues).trans h.all
    · intro k
      rw [releaseFrom_order newState rfl s.queValues k]
      exact h.order k

/-- A change of state settles nothing that was not settled. -/
theorem settled_setState (s : Device K V) (newState : Status) :
    (s.setState newState).settled = s.settled := by
  unfold Device.setState Device.checkQueChanges
  split
  · rfl
  · have h := releaseFrom_release newState (s := { s with state := newState, queValues := [] }) rfl
      s.queValues
    unfold Device.settled
    rw [← settled_release (fun k => s.queValueChange k newState = true) s.value
      (s.queValues.map ValueQue.later)]
    exact congrArg (fun p => Lib.settled p.1 p.2) h

omit [ValueOps V] in
/-- Handling a request that no queued change of its value precedes. -/
theorem orderly_handle {s t : Device K V} {before : List (Request K V)} {r : Request K V}
    {fate : Fate} (h : s.Orderly before) (hcond : t.stateCondition = s.stateCondition)
    (hstate : t.state = s.state) (hque : t.queValues = s.queValues)
    (hhandled : t.handled = s.handled ++ [⟨r, s.state, fate⟩])
    (hidle : fate ≠ .refused → ∀ q ∈ s.queValues, q.request.value ≠ r.value)
    (hallowed : fate = .carriedOut → s.queValueChange r.value s.state = false) :
    t.Orderly (before ++ [r]) := by
  constructor
  · intro q hq
    rw [hque] at hq
    simpa only [Device.queValueChange, hcond, hstate] using h.blocked q hq
  · intro e he hfate
    rw [hhandled, List.mem_append, List.mem_singleton] at he
    simp only [Device.queValueChange, hcond]
    rcases he with hold | rfl
    · exact h.allowed e hold hfate
    · exact hallowed hfate
  · have hperm : t.all = s.handled.map (·.request) ++ r :: s.queValues.map (·.request) := by
      simp [Device.all, hhandled, hque]
    rw [hperm]
    exact List.perm_middle.trans ((h.all.cons r).trans (List.perm_append_singleton r before).symm)
  · intro k
    rw [List.filter_append, hque]
    by_cases hk : r.value = k ∧ fate ≠ .refused
    · obtain ⟨rfl, hfate⟩ := hk
      have hold := h.order r.value
      rw [queuedAt_idle (hidle hfate), List.append_nil] at hold ⊢
      have hnew : t.handledAt r.value = s.handledAt r.value ++ [r] := by
        simp [Device.handledAt, hhandled, List.filter_append, hfate]
      rw [hnew]
      exact hold.append (by simp)
    · have hsame : t.handledAt k = s.handledAt k := by
        simp only [Device.handledAt, hhandled, List.filter_append]
        simp [hk]
      rw [hsame]
      exact (h.order k).trans (List.sublist_append_left _ _)

omit [ValueOps V] in
/-- The request is put on the queue. -/
theorem orderly_queue {s : Device K V} {before : List (Request K V)} {r : Request K V}
    (h : s.Orderly before) (hblocked : s.queValueChange r.value s.state = true) (newValue : V) :
    Device.Orderly { s with queValues := s.queValues ++ [⟨r, newValue⟩] } (before ++ [r]) := by
  constructor
  · intro q hq
    rcases List.mem_append.mp hq with hold | hnew
    · exact h.blocked q hold
    · rw [List.mem_singleton.mp hnew]
      exact hblocked
  · exact h.allowed
  · have hall := h.all.append_right [r]
    simpa [Device.all] using hall
  · intro k
    have hold := (h.order k).append (List.Sublist.refl (([r] : List (Request K V)).filter
      fun r => r.value = k))
    by_cases hk : r.value = k <;>
      simpa [queuedAt, Device.handledAt, List.filter_append, hk] using hold

/-- The four ends of a request that reaches the device. -/
theorem setValue_cases (s : Device K V) (r : Request K V) :
    (r.operand (s.value r.value) = none ∧ (s.setValue r).2 = s.handle r .refused) ∨
    ∃ newValue, r.operand (s.value r.value) = some newValue ∧
      ((s.queValueChange r.value s.state = true ∧
          (s.setValue r).2 = { s with queValues := s.queValues ++ [⟨r, newValue⟩] }) ∨
        ((s.queValueChange r.value s.state = false ∨ s.contains r.value = false) ∧
          r.operation = '=' ∧ ValueOps.isEqual (s.value r.value) newValue = true ∧
          (s.setValue r).2 = s.handle r .alreadySet) ∨
        (s.queValueChange r.value s.state = false ∧
          (s.setValue r).2 = (s.doSetValue r newValue).2)) := by
  unfold Device.setValue
  cases hop : r.operand (s.value r.value) with
  | none => exact .inl ⟨rfl, rfl⟩
  | some newValue =>
    refine .inr ⟨newValue, rfl, ?_⟩
    by_cases hblocked : s.queValueChange r.value s.state = true
    · by_cases hchange : r.operation ≠ '=' ∨
          ValueOps.isEqual (s.value r.value) newValue = false ∨ s.contains r.value = true
      · refine .inl ⟨hblocked, ?_⟩
        simp only [Device.setCondValue]
        rw [if_pos ⟨hchange, hblocked⟩]
      · obtain ⟨hassign, hequal, hcontains⟩ : r.operation = '=' ∧
            ValueOps.isEqual (s.value r.value) newValue = true ∧ s.contains r.value = false := by
          simpa only [not_or, not_not, Bool.not_eq_false, Bool.not_eq_true] using hchange
        refine .inr (.inl ⟨.inr hcontains, hassign, hequal, ?_⟩)
        simp only [Device.setCondValue]
        rw [if_neg fun h => hchange h.1, if_pos ⟨hassign, hequal⟩]
    · have hfree : s.queValueChange r.value s.state = false := by simpa using hblocked
      simp only [Device.setCondValue]
      rw [if_neg fun h => hblocked h.2]
      by_cases hequal : r.operation = '=' ∧ ValueOps.isEqual (s.value r.value) newValue = true
      · rw [if_pos hequal]
        exact .inr (.inl ⟨.inl hfree, hequal.1, hequal.2, rfl⟩)
      · rw [if_neg hequal]
        exact .inr (.inr ⟨hfree, rfl⟩)

omit [ValueOps V] in
theorem not_contains {s : Device K V} {k : K} (h : s.contains k = false) :
    ∀ q ∈ s.queValues, q.request.value ≠ k := by
  simpa [Device.contains] using h

theorem orderly_setValue {s : Device K V} {before : List (Request K V)} (h : s.Orderly before)
    (r : Request K V) : (s.setValue r).2.Orderly (before ++ [r]) := by
  rcases setValue_cases s r with ⟨-, heq⟩ | ⟨newValue, -, ⟨hblocked, heq⟩ |
    ⟨hfree, -, -, heq⟩ | ⟨hfree, heq⟩⟩ <;> rw [heq]
  · exact orderly_handle h rfl rfl rfl rfl (fun hne => absurd rfl hne) nofun
  · exact orderly_queue h hblocked newValue
  · exact orderly_handle h rfl rfl rfl rfl (fun _ => hfree.elim h.idle not_contains) nofun
  · exact orderly_handle h rfl rfl rfl rfl (fun _ => h.idle hfree) fun _ => hfree

omit [DecidableEq K] in
theorem result_of_operand {r : Request K V} {v newValue : V} (h : r.operand v = some newValue) :
    r.result v = (doSetValue r.hook v r.operation newValue).2 := by
  simp only [Request.result, h]

/-- **Simulation**: a request whose operand does not depend on what is queued
acts on the settled values as it would act at once. -/
theorem settled_setValue {s : Device K V} {before : List (Request K V)} (h : s.Orderly before)
    {r : Request K V} (hsame : r.operand (s.value r.value) = r.operand (s.settled r.value)) :
    (s.setValue r).2.settled = carryOut s.settled r.atOnce := by
  have hleave : r.result (s.settled r.value) = s.settled r.value →
      s.settled = carryOut s.settled r.atOnce := fun he => by
    simp only [carryOut, Request.atOnce, he, Function.update_eq_self]
  rcases setValue_cases s r with ⟨hop, heq⟩ | ⟨newValue, hop, ⟨-, heq⟩ |
    ⟨hfree, hassign, hequal, heq⟩ | ⟨hfree, heq⟩⟩ <;> rw [heq]
  · refine hleave ?_
    simp only [Request.result, ← hsame, hop]
  · have hlater : carryOut s.settled (ValueQue.later ⟨r, newValue⟩) =
        carryOut s.settled r.atOnce := by
      have hres := result_of_operand (hsame ▸ hop)
      simp only [carryOut, ValueQue.later, Request.atOnce, hres]
    rw [← hlater]
    simp only [Device.settled, List.map_append, List.map_cons, List.map_nil, settled_concat]
  · -- the queue holds no change of this value, so the value is settled
    have hidle : s.settled r.value = s.value r.value :=
      settled_of_idle fun p hp => by
        obtain ⟨q, hq, rfl⟩ := List.mem_map.mp hp
        exact hfree.elim h.idle not_contains q hq
    refine hleave ?_
    rw [hidle, result_of_operand hop, hassign, doSetValue_equal _ hequal]
  · have hwait : ∀ p ∈ s.queValues.map ValueQue.later, p.key ≠ r.value := fun p hp => by
      obtain ⟨q, hq, rfl⟩ := List.mem_map.mp hp
      exact h.idle hfree q hq
    have hidle : s.settled r.value = s.value r.value := settled_of_idle hwait
    have hnow : (s.doSetValue r newValue).2.settled =
        carryOut s.settled (ValueQue.later ⟨r, newValue⟩) := by
      unfold Device.settled
      rw [doSetValue_value, doSetValue_queValues]
      exact settled_carryOut hwait
    rw [hnow]
    simp only [carryOut, ValueQue.later, Request.atOnce, hidle, result_of_operand hop]

/-! ## Arrays of integers -/

/-- An `IntegerArray`. -/
structure IntegerArray where
  value : List Int
  deriving DecidableEq, Repr

instance : ValueOps IntegerArray where
  doOpValue new op _ := if op = '=' then some new else none
  isEqual old new := old = new
  setFromValue _ new := new
  doOpValue_assign := by simp

/-- `IntegerArray::setValues`. -/
def IntegerArray.setValues (a : IntegerArray) (index : List Nat) (val : Int) : IntegerArray :=
  ⟨index.foldl (fun v i => v.set i val) a.value⟩

/-- `X name[index] = val`: the array is duplicated with its values. -/
def setIndices (name : K) (index : List Nat) (val : Int) : Request K IntegerArray :=
  ⟨name, '=', fun old => some (old.setValues index val), writable⟩

/-- `X name = vals`. -/
def setWhole (name : K) (vals : List Int) : Request K IntegerArray :=
  ⟨name, '=', fun _ => some ⟨vals⟩, writable⟩

/-! ## Every run -/

/-- The values after carrying the requests out at once, in the order they
arrive. -/
def inOrder (value : K → V) (rs : List (Request K V)) : K → V :=
  Lib.settled value (rs.map Request.atOnce)

omit [DecidableEq K] [ValueOps V] in
theorem requests_append (es es' : List (Event K V)) :
    requests (es ++ es') = requests es ++ requests es' := by
  induction es with
  | nil => rfl
  | cons e es ih => cases e <;> simp [requests, ih]

/-- A step keeps the order, and the settled values follow the requests. -/
theorem orderly_step {s : Device K V} {before : List (Request K V)} (h : s.Orderly before)
    (e : Event K V) : (step s e).Orderly (before ++ requests [e]) := by
  cases e with
  | request r => exact orderly_setValue h r
  | state newState =>
    simp only [requests, List.append_nil]
    exact orderly_setState h newState

theorem settled_step {s : Device K V} {before : List (Request K V)} (h : s.Orderly before)
    {e : Event K V} (hsame : SameOperand s e) :
    (step s e).settled = inOrder s.settled (requests [e]) := by
  cases e with
  | request r => exact settled_setValue h hsame
  | state newState => exact settled_setState s newState

theorem orderly_run {s : Device K V} {before : List (Request K V)} (h : s.Orderly before)
    (es : List (Event K V)) : (run step s es).Orderly (before ++ requests es) := by
  induction es generalizing s before with
  | nil => simpa [requests] using h
  | cons e es ih =>
    have hnext := ih (orderly_step h e)
    rwa [List.append_assoc, ← requests_append] at hnext

theorem settled_run {s : Device K V} {before : List (Request K V)} (h : s.Orderly before)
    {es : List (Event K V)} (hsame : Along step SameOperand s es) :
    (run step s es).settled = inOrder s.settled (requests es) := by
  induction es generalizing s before with
  | nil => rfl
  | cons e es ih =>
    rw [run_cons, ih (orderly_step h e) hsame.2, settled_step h hsame.1]
    simp only [inOrder, Lib.settled, ← List.foldl_append, ← List.map_append, ← requests_append]
    rfl

omit [ValueOps V] in
theorem orderly_start (value : K → V) (stateCondition : K → Status) (state : Status) :
    (Device.start value stateCondition state).Orderly [] := by
  constructor <;>
    simp [Device.start, Device.Blocked, Device.Allowed, Device.all, Device.handledAt, queuedAt]

/-- What the value queue promises after the requests `before`, of a device that
began with the values `first`. -/
structure Served (first : K → V) (before : List (Request K V)) (s : Device K V) : Prop where
  value : ∀ k, s.queValueChange k s.state = false →
    s.value k = (before.filter fun r => r.value = k).foldl (fun v r => r.result v) (first k)
  once : (s.handled.map (·.request) ++ s.queValues.map (·.request)).Perm before
  order : ∀ k, (s.handledAt k ++ queuedAt s.queValues k).Sublist
    (before.filter fun r => r.value = k)
  drained : ∀ k, s.queValueChange k s.state = false → ∀ q ∈ s.queValues, q.request.value ≠ k
  allowed : ∀ h ∈ s.handled, h.fate = .carriedOut →
    s.queValueChange h.request.value h.state = false

/-- **Queued changes in order**: when no request builds its operand from a
content that a queued change of the value is yet to alter, every request is
handled once or queued, the requests of one value in the order they came, none
while the value is blocked, and a value that is not blocked holds what carrying
all its requests out on arrival would have made of it. -/
theorem queued_changes_served (value : K → V) (stateCondition : K → Status) (state : Status)
    (events : List (Event K V))
    (h : Along step SameOperand (Device.start value stateCondition state) events) :
    Served value (requests events)
      (run step (Device.start value stateCondition state) events) := by
  have horder := orderly_run (orderly_start value stateCondition state) events
  have hsettled := settled_run (orderly_start value stateCondition state) h
  rw [List.nil_append] at horder
  constructor
  · intro k hk
    have hidle : (run step (Device.start value stateCondition state) events).settled k =
        (run step (Device.start value stateCondition state) events).value k :=
      settled_of_idle fun p hp => by
        obtain ⟨q, hq, rfl⟩ := List.mem_map.mp hp
        exact horder.idle hk q hq
    rw [← hidle, hsettled, inOrder, settled_apply, List.filter_map, List.foldl_map]
    rfl
  · exact horder.all
  · exact horder.order
  · exact fun k hk => horder.idle hk
  · exact horder.allowed

/-- The array is set while it is blocked, the whole of it last, and once more
when it is free. -/
theorem queued_changes_served_array :
    Served (fun _ : Unit => (⟨[0, 0]⟩ : IntegerArray))
      [setIndices () [0] 1, setWhole () [5, 6], setIndices () [1] 7]
      (run step (Device.start (fun _ => ⟨[0, 0]⟩) (fun _ => 1#32) 1#32)
        [.request (setIndices () [0] 1), .request (setWhole () [5, 6]), .state 0#32,
          .request (setIndices () [1] 7)]) :=
  queued_changes_served (fun _ => ⟨[0, 0]⟩) (fun _ => 1#32) 1#32
    [.request (setIndices () [0] 1), .request (setWhole () [5, 6]), .state 0#32,
      .request (setIndices () [1] 7)] (by decide)

/-- Two elements of an array are set while it is blocked. The second change was
built from the array as it was before the first. -/
theorem queued_element_lost :
    ¬ ∀ (value : Unit → IntegerArray) (stateCondition : Unit → Status) (state : Status)
      (events : List (Event Unit IntegerArray)),
      Served value (requests events) (run step (Device.start value stateCondition state) events) := by
  intro h
  have hrun := (h (fun _ => ⟨[0, 0]⟩) (fun _ => 1#32) 1#32
    [.request (setIndices () [0] 1), .request (setIndices () [1] 2), .state 0#32]).value () rfl
  exact absurd hrun (by decide)

end Rts2.Daemon
