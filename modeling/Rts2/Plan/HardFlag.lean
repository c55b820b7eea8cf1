import Rts2.Plan.FrontRead
import Rts2.Plan.SelectorDev

/-! # The flag that interrupts

`selectNextObservation` hands out the plan, the queue id and the hard flag of the front
entry by reference. The selector declares the flag without a value for every queue, and
interrupts the observation if it is set. -/
namespace Rts2.Plan
open Rts2.Lib

/-- The variables the selector passes by reference; one that was declared without a value
is `none` until something is assigned. -/
structure Outputs where
  pid : Int
  qid : Int
  hard : Option Bool
  nextTime : Option Int
  deriving DecidableEq, Repr

namespace Outputs
variable (w : World)

/-- The front entry can be observed: its target id is returned if it fits. -/
def selectFront (sky : Sky) (out : Outputs) (nextLength : Option Int) : Que (Int × Outputs) := do
  let e ← Que.front
  match nextLength with
  | none => return (e.target.tarId, { out with pid := e.planId, qid := e.qid })
  | some length =>
    match sky.scriptLength e.target with
    | none => throw .error
    | some tl =>
      if tl < length || !(← get).queue.values.checkTargetLength then
        let out := { out with pid := e.planId, qid := e.qid }
        if e.tStart.isNone then return (e.target.tarId, { out with hard := some false })
        Que.modifyEntries (·.modifyHead fun e => { e with hard := false })
        return (e.target.tarId, { out with hard := some e.hard })
      else return (-1, out)

/-- `selectNextObservation`, with what it assigns. -/
def selectNextObservation (now : Int) (out : Outputs) (nextLength : Option Int)
    (removeObserved : Bool) : Que (Int × Outputs) := do
  let queue := (← get).queue
  if queue.values.queueEnabled = false || queue.entries.isEmpty then return (-1, out)
  let (visible, tStart) ← Que.filter w (now + 60) nextLength removeObserved
  if ← Que.frontReady visible (now + 60) then
    return ← selectFront (← Que.ask w.sky) out nextLength
  Que.addTimer (now + 60) tStart
  if tStart.isSome && out.nextTime.all fun t => tStart.any (· < t) then
    return (-1, { out with nextTime := tStart.map (· + queue.values.queueWindow.getD 0) })
  return (-1, out)

/-- The loop of `SelectorDev::selectNext` over the queues, with `i` of them behind: the id
of the target and what `interrupt` is set to. -/
def selectFrom (o : Occasion) : Nat → List ExecutorQueue → Outputs → Option Int → Bool →
    Dev (Option (Int × Option Bool))
  | _, [], _, _, _ => return none
  | i, q :: rest, out, nextLength, removeObserved => do
    let (id, out) ← Dev.onQueue i q
      (selectNextObservation w o.now { out with hard := none } nextLength removeObserved)
    if 0 ≤ id then return some (id, out.hard)
    selectFrom o (i + 1) rest out (Dev.shorten o out.nextTime nextLength)
      (removeObserved && out.nextTime.isNone)

/-! ## The earlier reading -/

/-- The selection as `Que.selectNextObservation` hands it out, where a flag without a value
counts as false. -/
def given (out : Outputs) (nextLength : Option Int) (n : Option Que.Selection) : Int × Outputs :=
  match n with
  | none => (-1, out)
  | some n =>
    (n.tarId, { out with
      pid := n.pid
      qid := n.qid
      hard := if nextLength.isNone then out.hard else some n.hard })

variable {w}

theorem selectFront_eq (sky : Sky) (out : Outputs) (nextLength : Option Int) :
    selectFront sky out nextLength = given out nextLength <$> Que.selectFront sky nextLength := by
  unfold selectFront Que.selectFront
  rw [map_bind]
  congr 1
  funext e
  cases nextLength with
  | none => rfl
  | some length =>
    cases sky.scriptLength e.target with
    | none => rfl
    | some tl =>
      simp only [map_bind]
      congr 1
      funext s
      split
      · split
        · rfl
        · rw [map_bind]
          rfl
      · rfl

/-- The selection is the one of `Que.selectNextObservation`. -/
theorem selectNextObservation_eq (now : Int) (out : Outputs) (nextLength : Option Int)
    (removeObserved : Bool) :
    selectNextObservation w now out nextLength removeObserved =
      (fun r => given { out with nextTime := r.2 } nextLength r.1) <$>
        Que.selectNextObservation w now out.nextTime nextLength removeObserved := by
  unfold selectNextObservation Que.selectNextObservation
  simp only [map_bind]
  congr 1
  funext s
  split
  · rfl
  rw [map_bind]
  congr 1
  funext r
  rw [map_bind]
  congr 1
  funext ready
  cases ready with
  | true =>
    simp only [if_true, map_bind]
    congr 1
    funext sky
    rw [selectFront_eq, map_eq_pure_bind]
    rfl
  | false =>
    simp only [Bool.false_eq_true, if_false, map_bind]
    congr 1
    funext _
    split
    · rfl
    · rfl

/-! ## What is assigned -/

/-- The front entry, after its flag was handed out. -/
def taken (e : QueuedTarget) : QueuedTarget :=
  if e.tStart.isNone then e else { e with hard := false }

/-- All is assigned from the front entry, whose target id is returned; only an entry with a
start can interrupt. -/
def Handed (id : Int) (out : Outputs) (s : QueState) : Prop :=
  ∃ e rest, s.queue.entries = taken e :: rest ∧ e.target.tarId = id ∧ out.pid = e.planId ∧
    out.qid = e.qid ∧ out.hard = some (e.tStart.isSome && e.hard)

/-- In every state of a queue, a selection assigns all from the front entry. -/
def Assigned (nextLength : Option Int) : Prop :=
  ∀ w now out removeObserved s,
    Ends (selectNextObservation w now out nextLength removeObserved) s
      (fun r s' => 0 ≤ r.1 → Handed r.1 r.2 s') fun _ _ => True

/-- Whatever queue gives the next target, `interrupt` is set to a flag that was assigned. -/
def InterruptKnown (nextLength : Option Int) : Prop :=
  ∀ w o i queues out removeObserved s,
    Ends (selectFrom w o i queues out nextLength removeObserved) s
      (fun r _ => ∀ n ∈ r, n.2.isSome = true) fun _ _ => True

theorem not_returned {P : Prop} (h : (0 : Int) ≤ -1) : P := absurd h (by decide)

theorem front_returns (s : QueState) :
    Ends Que.front s (fun e s' => s' = s ∧ ∃ rest, s.queue.entries = e :: rest) fun _ _ => True := by
  refine ends_read ?_
  cases s.queue.entries with
  | nil => trivial
  | cons e rest => exact ⟨rfl, rest, rfl⟩

theorem selectFront_handed (sky : Sky) (out : Outputs) (length : Int) (s : QueState) :
    Ends (selectFront sky out (some length)) s (fun r s' => 0 ≤ r.1 → Handed r.1 r.2 s')
      fun _ _ => True := by
  refine (front_returns s).bind fun e s' he => ?_
  obtain ⟨rfl, rest, hrest⟩ := he
  cases sky.scriptLength e.target with
  | none => trivial
  | some tl =>
    refine ends_read (ends_ite (fun _ => ends_ite (fun hstart => ?_) fun hstart => ?_) fun _ => ?_)
    · intro _
      refine ⟨e, rest, ?_, rfl, rfl, rfl, ?_⟩
      · rw [hrest, taken, if_pos hstart]
      · have hnone : e.tStart.isSome = false := by simpa using hstart
        rw [hnone, Bool.false_and]
    · intro _
      refine ⟨e, rest, ?_, rfl, rfl, rfl, ?_⟩
      · show s'.queue.entries.modifyHead _ = _
        rw [hrest, taken, if_neg hstart]
        rfl
      · have hsome : e.tStart.isSome = true := by
          cases hstart' : e.tStart with
          | none => exact absurd (by rw [hstart']; rfl) hstart
          | some _ => rfl
        rw [hsome, Bool.true_and]
    · exact not_returned

/-- A call with a number hands out all it has to. -/
theorem assigned_of_some (length : Int) : Assigned (some length) := by
  intro w now out removeObserved s
  refine ends_read (ends_ite (fun _ => ?_) fun _ => ?_)
  · exact not_returned
  refine (ends_trivial _ _).bind fun r s' _ => ?_
  refine (ends_trivial _ _).bind fun ready s' _ => ?_
  refine ends_ite (fun _ => ?_) fun _ => ?_
  · exact (ends_trivial _ _).bind fun sky s' _ => selectFront_handed sky out length s'
  · refine (ends_trivial _ _).bind fun _ s' _ => ends_ite (fun _ => ?_) fun _ => ?_
    · exact not_returned
    · exact not_returned

/-- A number stays a number from queue to queue. -/
theorem shorten_some (o : Occasion) (nextTime : Option Int) (length : Int) :
    ∃ shorter, Dev.shorten o nextTime (some length) = some shorter := by
  cases nextTime with
  | none => exact ⟨length, rfl⟩
  | some t =>
    by_cases h : o.now < t && t - o.now < length
    · exact ⟨t - o.now, if_pos h⟩
    · exact ⟨length, if_neg h⟩

theorem interruptKnown_of_some (length : Int) : InterruptKnown (some length) := by
  intro w o i queues
  induction queues generalizing i length with
  | nil =>
    intro out removeObserved s n hn
    cases hn
  | cons q rest ih =>
    intro out removeObserved s
    have hq : Ends (Dev.onQueue i q (selectNextObservation w o.now { out with hard := none }
        (some length) removeObserved)) s (fun r _ => 0 ≤ r.1 → r.2.hard.isSome = true)
        fun _ _ => True := by
      refine ends_zoom_of (assigned_of_some length w o.now _ removeObserved ⟨s.pool, q⟩)
        (fun r s' hr hid => ?_) fun _ _ _ => trivial
      obtain ⟨e, rest, -, -, -, -, hhard⟩ := hr hid
      rw [hhard]
      rfl
    refine hq.bind fun r s' hr => ends_ite (fun hid n hn => ?_) fun _ => ?_
    · cases hn
      exact hr hid
    · obtain ⟨shorter, hshorter⟩ := shorten_some o r.2.nextTime length
      rw [hshorter]
      exact ih shorter (i + 1) r.2 _ s'

/-- The front entry, its start passed, is to interrupt. -/
def hardEntry : QueuedTarget := { nowEntry 1 5 'O' 1 with tStart := some 0, hard := true }

/-- A call with NaN returns the target of the entry, and leaves the flag without a value. -/
theorem nan_unassigned :
    ¬Ends (selectNextObservation World.quiet 0 ⟨-1, -1, none, none⟩ none true)
      ⟨Pool.new, { ExecutorQueue.new with entries := [hardEntry] }⟩
      (fun r s' => 0 ≤ r.1 → Handed r.1 r.2 s') fun _ _ => True := by
  intro h
  obtain ⟨e, rest, -, -, -, -, hhard⟩ := h.of_ok rfl (by decide)
  cases hhard

/-- A selection assigns the flag, and the selector interrupts by one that was assigned, when
`next_length` is a number and then only. -/
theorem assigned_iff (nextLength : Option Int) :
    Assigned nextLength ∧ InterruptKnown nextLength ↔ nextLength.isSome = true := by
  cases nextLength with
  | some length => exact iff_of_true ⟨assigned_of_some length, interruptKnown_of_some length⟩ rfl
  | none => exact iff_of_false (fun h => nan_unassigned (h.1 ..)) Bool.false_ne_true

/-- Without a time to select until, the flag of an entry whose start has passed is not assigned. -/
theorem hard_unassigned : ¬(Assigned none ∧ InterruptKnown none) :=
  fun h => nan_unassigned (h.1 ..)

end Outputs
end Rts2.Plan
