import Mathlib.Data.List.TakeWhile
import Rts2.Plan.Filter

/-! # The front of an empty queue

`selectNextObservation` and the commands that queue a target to the front read
the front entry after a filter, and the filter may have taken out the last one. -/
namespace Rts2.Plan
open Rts2.Lib

section Survivors
variable (sky : Sky) (v : QueueValues) (now : Int) (maxLength : Option Int) (removeObserved : Bool)

/-- The entry is still there after the filter, when the entries `later` stand
behind it. -/
def Survives (later : List QueuedTarget) (e : QueuedTarget) : Prop :=
  (v.queueType = .fifo → ∀ x ∈ later, due now x = false) ∧ expired sky v now e = false ∧
    (v.blockUntilVisible = true ∨ ready sky v now maxLength removeObserved e = true ∨
      Que.leaves sky v now e = false)

def Survivor (l : List QueuedTarget) : Prop :=
  ∃ before e later, l = before ++ e :: later ∧
    Survives sky v now maxLength removeObserved later e

variable {sky v now maxLength removeObserved}

theorem mem_dueFrom {l : List QueuedTarget} {e : QueuedTarget} :
    e ∈ dueFrom now l ↔
      ∃ before later, l = before ++ e :: later ∧ ∀ x ∈ later, due now x = false := by
  induction l with
  | nil => simp [dueFrom]
  | cons a rest ih =>
    by_cases hany : rest.any (due now) = true
    · rw [dueFrom, if_pos hany, ih]
      constructor
      · intro h
        obtain ⟨before, later, rfl, hlater⟩ := h
        exact ⟨a :: before, later, rfl, hlater⟩
      · intro h
        obtain ⟨before, later, heq, hlater⟩ := h
        cases before with
        | nil =>
          obtain ⟨rfl, rfl⟩ := List.cons.inj heq
          obtain ⟨x, hx, hdue⟩ := List.any_eq_true.mp hany
          rw [hlater x hx] at hdue
          cases hdue
        | cons b before =>
          obtain ⟨rfl, rfl⟩ := List.cons.inj heq
          exact ⟨before, later, rfl, hlater⟩
    · rw [dueFrom, if_neg hany]
      have hnone : ∀ x ∈ rest, due now x = false := by simpa using hany
      constructor
      · intro h
        obtain ⟨before, later, heq⟩ := List.append_of_mem h
        refine ⟨before, later, heq, fun x hx => ?_⟩
        cases before with
        | nil =>
          obtain ⟨rfl, rfl⟩ := List.cons.inj heq
          exact hnone x hx
        | cons b before =>
          obtain ⟨rfl, rfl⟩ := List.cons.inj heq
          exact hnone x (by simp [hx])
      · intro h
        obtain ⟨before, later, heq, -⟩ := h
        rw [heq]
        simp

theorem mem_unexpired {l : List QueuedTarget} {e : QueuedTarget} :
    e ∈ unexpired sky v now l ↔ ∃ before later, l = before ++ e :: later ∧
      (v.queueType = .fifo → ∀ x ∈ later, due now x = false) ∧ expired sky v now e = false := by
  rw [unexpired, List.mem_filter, Bool.not_eq_true']
  by_cases hfifo : v.queueType = .fifo
  · rw [if_pos hfifo, mem_dueFrom]
    constructor
    · intro h
      obtain ⟨⟨before, later, heq, hlater⟩, hexp⟩ := h
      exact ⟨before, later, heq, fun _ => hlater, hexp⟩
    · intro h
      obtain ⟨before, later, heq, hlater, hexp⟩ := h
      exact ⟨⟨before, later, heq, hlater hfifo⟩, hexp⟩
  · rw [if_neg hfifo]
    constructor
    · intro h
      obtain ⟨before, later, heq⟩ := List.append_of_mem h.1
      exact ⟨before, later, heq, fun hf => absurd hf hfifo, h.2⟩
    · intro h
      obtain ⟨before, later, rfl, -, hexp⟩ := h
      exact ⟨by simp, hexp⟩

theorem arranged_eq_nil {skipped l : List QueuedTarget} :
    arranged now skipped l = [] ↔ skipped = [] ∧ l = [] := by
  cases l with
  | nil => simp [arranged]
  | cons front rest =>
    rw [arranged]
    split <;> simp

theorem readyFrom_eq_nil {l : List QueuedTarget} :
    readyFrom sky v now maxLength removeObserved l = [] ↔
      ∀ e ∈ l, ready sky v now maxLength removeObserved e = false := by
  have hdrop : l.dropWhile (!ready sky v now maxLength removeObserved ·) = [] ↔
      ∀ e ∈ l, ready sky v now maxLength removeObserved e = false := by
    simp [List.dropWhile_eq_nil_iff]
  rw [← hdrop]
  unfold readyFrom
  split
  · cases l.dropWhile (!ready sky v now maxLength removeObserved ·) <;> simp
  · exact Iff.rfl

theorem passed_all {l : List QueuedTarget}
    (h : ∀ e ∈ l, ready sky v now maxLength removeObserved e = false) :
    passed sky v now maxLength removeObserved l = l := by
  rw [passed, List.takeWhile_eq_self_iff]
  intro e he
  rw [h e he]
  rfl

/-- **A filter empties the queue** when no entry survives it. -/
theorem filtered_eq_nil {l : List QueuedTarget} :
    filtered sky v now maxLength removeObserved l = [] ↔
      ¬ Survivor sky v now maxLength removeObserved l := by
  have hsurvivor : Survivor sky v now maxLength removeObserved l ↔
      ∃ e ∈ unexpired sky v now l, v.blockUntilVisible = true ∨
        ready sky v now maxLength removeObserved e = true ∨ Que.leaves sky v now e = false := by
    constructor
    · intro h
      obtain ⟨before, e, later, heq, hlater, hexp, hkeep⟩ := h
      exact ⟨e, mem_unexpired.mpr ⟨before, later, heq, hlater, hexp⟩, hkeep⟩
    · intro h
      obtain ⟨e, he, hkeep⟩ := h
      obtain ⟨before, later, heq, hlater, hexp⟩ := mem_unexpired.mp he
      exact ⟨before, e, later, heq, hlater, hexp, hkeep⟩
  rw [hsurvivor]
  unfold filtered
  by_cases hblock : v.blockUntilVisible = true
  · simp [hblock, List.eq_nil_iff_forall_not_mem]
  · rw [if_neg hblock, arranged_eq_nil, readyFrom_eq_nil]
    constructor
    · intro h hex
      obtain ⟨e, he, hkeep⟩ := hex
      have hready := h.2 e he
      have hleaves : Que.leaves sky v now e = true := by
        have haside := h.1
        rw [aside, passed_all h.2, List.map_eq_nil_iff, List.filter_eq_nil_iff] at haside
        simpa using haside e he
      simp [hblock, hready, hleaves] at hkeep
    · intro h
      have hready : ∀ e ∈ unexpired sky v now l,
          ready sky v now maxLength removeObserved e = false := by
        intro e he
        by_contra hne
        exact h ⟨e, he, Or.inr (Or.inl (by simpa using hne))⟩
      refine ⟨?_, hready⟩
      rw [aside, passed_all hready, List.map_eq_nil_iff, List.filter_eq_nil_iff]
      intro e he hleaves
      exact h ⟨e, he, Or.inr (Or.inr (by simpa using hleaves))⟩

/-- Every entry is taken out by a statement of its own. -/
theorem statements_of_filtered_nil {l : List QueuedTarget}
    (h : filtered sky v now maxLength removeObserved l = []) :
    statements sky v now maxLength removeObserved false l =
      l.length + if v.blockUntilVisible then 0 else 1 := by
  have hle := unexpired_length_le sky v now l
  unfold filtered at h
  unfold statements cost
  by_cases hblock : v.blockUntilVisible = true
  · rw [if_pos hblock] at h
    simp [hblock, h]
  · rw [if_neg hblock, arranged_eq_nil, readyFrom_eq_nil] at h
    have haside := h.1
    rw [aside, passed_all h.2, List.map_eq_nil_iff, List.filter_eq_nil_iff] at haside
    have hall : (unexpired sky v now l).filter (Que.leaves sky v now) = unexpired sky v now l := by
      rw [List.filter_eq_self]
      intro e he
      simpa using haside e he
    simp only [hblock, passed_all h.2, hall]
    simp
    omega

end Survivors

section Reading
variable {w : World} {v : QueueValues} {l rest : List QueuedTarget} {a : Nat} {s : QueState}
  {e : QueuedTarget}

/-- The program does not read the front of an empty queue. -/
def Safe {α : Type} (x : Que α) (s : QueState) : Prop :=
  Ends x s (fun _ _ => True) fun e _ => e ≠ .emptyFront

/-- It does. -/
def Faults {α : Type} (x : Que α) (s : QueState) : Prop :=
  Ends x s (fun _ _ => False) fun e _ => e = .emptyFront

theorem Faults.bind {α β : Type} {x : Que α} {f : α → Que β} (h : Faults x s) :
    Faults (x >>= f) s :=
  Ends.bind h fun _ _ hfalse => False.elim hfalse

theorem front_ends (hs : s.queue.entries = e :: rest) :
    Ends Que.front s (fun _ s' => s' = s) fun e _ => e ≠ .emptyFront := by
  refine ends_read ?_
  rw [hs]
  exact rfl

theorem front_faults (hs : s.queue.entries = []) : Faults Que.front s := by
  refine ends_read ?_
  rw [hs]
  exact rfl

theorem selectFront_safe (hs : s.queue.entries = e :: rest) (sky : Sky)
    (nextLength : Option Int) : Safe (Que.selectFront sky nextLength) s := by
  refine (front_ends hs).bind fun e s' _ => ?_
  cases nextLength with
  | none => exact trivial
  | some length =>
    cases sky.scriptLength e.target with
    | none =>
      show Fault.error ≠ Fault.emptyFront
      decide
    | some tl =>
      refine ends_read (ends_ite (fun _ => ?_) fun _ => trivial)
      exact ends_ite (fun _ => trivial) fun _ => trivial

theorem addTimer_safe (hs : s.queue.entries = e :: rest) (now : Int) (tStart : Option Int) :
    Safe (Que.addTimer now tStart) s := by
  refine ends_read (ends_ite (fun _ => trivial) fun _ => ?_)
  refine (front_ends hs).bind fun e s' _ => ?_
  exact ends_ite (fun _ => trivial) fun _ => trivial

theorem addTimer_faults (hs : s.queue.entries = []) (now : Int) : Faults (Que.addTimer now none) s :=
  ends_read (ends_ite (fun h => by simp at h) fun _ => (front_faults hs).bind)

/-- The filter is over, and something is left in the queue. -/
theorem frontReady_ends (hs : s.queue.entries = e :: rest) (visible : Bool) (now : Int) :
    Ends (Que.frontReady visible now) s (fun _ s' => s' = s) fun e _ => e ≠ .emptyFront := by
  refine ends_ite (fun _ => ?_) fun _ => rfl
  exact (front_ends hs).bind fun e s' hs' => hs'

theorem verdict_of_filtered_nil {sky : Sky} {now : Int} {maxLength : Option Int}
    {removeObserved : Bool} (h : filtered sky v now maxLength removeObserved l = []) :
    ∃ visible, verdict sky v now maxLength removeObserved l = (visible, none) := by
  unfold filtered at h
  unfold verdict
  by_cases hblock : v.blockUntilVisible = true
  · exact ⟨true, if_pos hblock⟩
  · rw [if_neg hblock, arranged_eq_nil] at h
    rw [if_neg hblock, h.2]
    exact ⟨false, rfl⟩

/-- No entry survives the filter, and the database answers every statement it
takes to remove them. -/
def Emptied (w : World) (a : Nat) (v : QueueValues) (now : Int) (maxLength : Option Int)
    (removeObserved : Bool) (l : List QueuedTarget) : Prop :=
  ¬ Survivor (w.sky a) v now maxLength removeObserved l ∧
    Fine w (a + 1) (l.length + if v.blockUntilVisible then 0 else 1)

/-- After a filter the queue is empty, or something is left in it. -/
theorem filter_emptied (h : At a l v false s) (now : Int) (maxLength : Option Int)
    (removeObserved : Bool) :
    Ends (Que.filter w now maxLength removeObserved) s
      (fun r s' => (Emptied w a v now maxLength removeObserved l ∧ r.2 = none ∧
          s'.queue.entries = []) ∨
        (¬ Emptied w a v now maxLength removeObserved l ∧
          ∃ e rest, s'.queue.entries = e :: rest))
      fun e _ => e = .error ∧ ¬ Emptied w a v now maxLength removeObserved l := by
  refine (filter_ends h now maxLength removeObserved).mono (fun r s' hr => ?_) fun e s' he => ?_
  · obtain ⟨rfl, hat, hfine⟩ := hr
    cases hl : filtered (w.sky a) v now maxLength removeObserved l with
    | nil =>
      rw [statements_of_filtered_nil hl] at hfine
      obtain ⟨visible, hverdict⟩ := verdict_of_filtered_nil hl
      refine Or.inl ⟨⟨filtered_eq_nil.mp hl, hfine⟩, by rw [hverdict], ?_⟩
      rw [hat.entries, hl]
    | cons e rest =>
      refine Or.inr ⟨fun hempty => ?_, e, rest, by rw [hat.entries, hl]⟩
      have hnil := filtered_eq_nil.mpr hempty.1
      rw [hl] at hnil
      cases hnil
  · refine ⟨he.1, fun hempty => he.2 ?_⟩
    rw [statements_of_filtered_nil (filtered_eq_nil.mpr hempty.1)]
    exact hempty.2

/-- **A selection** reads the front of an empty queue when the filter has emptied
it. -/
theorem selectNextObservation_ends (h : At a l v false s) (henabled : v.queueEnabled = true)
    (hl : l ≠ []) (now : Int) (nextTime nextLength : Option Int) (removeObserved : Bool) :
    Ends (Que.selectNextObservation w now nextTime nextLength removeObserved) s
      (fun _ _ => ¬ Emptied w a v (now + 60) nextLength removeObserved l)
      fun e _ => e = .emptyFront ↔ Emptied w a v (now + 60) nextLength removeObserved l := by
  refine ends_read (ends_ite (fun hnone => ?_) fun _ => ?_)
  · rw [h.values, henabled, h.entries] at hnone
    cases l with
    | nil => exact absurd rfl hl
    | cons e rest => simp at hnone
  refine ((filter_emptied h (now + 60) nextLength removeObserved).mono (fun _ _ hr => hr)
    fun e _ he => ?_).bind fun r s' hr => ?_
  · rw [he.1]
    exact iff_of_false (by decide) he.2
  obtain ⟨visible, tStart⟩ := r
  rcases hr with ⟨hempty, hnone, hs'⟩ | ⟨hnot, e, rest, hs'⟩
  · cases hnone
    refine Ends.mono (?_ : Faults _ s') (fun _ _ hf => False.elim hf)
      fun e _ he => iff_of_true he hempty
    cases visible with
    | true => exact (Faults.bind (front_faults hs')).bind
    | false =>
      refine Ends.bind (R := fun b s'' => b = false ∧ s'' = s') ⟨rfl, rfl⟩ fun b s'' hb => ?_
      obtain ⟨rfl, rfl⟩ := hb
      exact Faults.bind (addTimer_faults hs' _)
  · refine Ends.mono (?_ : Safe _ s') (fun _ _ _ => hnot) fun e _ he => iff_of_false he hnot
    refine (frontReady_ends hs' visible (now + 60)).bind fun ready r hr => ?_
    subst hr
    refine ends_ite (fun _ => ?_) fun _ => ?_
    · refine Ends.bind (R := fun _ (t : QueState) => t.queue.entries = e :: rest) hs' fun sky t ht => ?_
      exact Ends.bind (selectFront_safe ht sky nextLength) fun _ _ _ => trivial
    · refine Ends.bind (addTimer_safe hs' _ _) fun _ _ _ => ?_
      exact ends_ite (fun _ => trivial) fun _ => trivial

/-! ## Queueing to the front -/

/-- The entry that `now` puts to the front. -/
def nowEntry (created : Nat) (tarId : Int) (type : Char) (qid : Nat) : QueuedTarget where
  target := ⟨created, tarId, type⟩
  qid := qid
  planId := -1
  tStart := none
  tEnd := none
  repN := -1
  repSeparation := none
  hard := false
  unobservableReported := false

/-- The target is queued, and then neither its entry nor another one survives
the filter. -/
def NowEmptied (w : World) (s : QueState) (now tarId : Int) (once : Bool) : Prop :=
  (once && s.queue.entries.any (·.target.tarId = tarId)) = false ∧
    ∃ type qid, w.createTarget s.pool.asked tarId = some type ∧
      w.nextQid (s.pool.asked + 1) = some qid ∧ Fine w (s.pool.asked + 2) 2 ∧
      Emptied w (s.pool.asked + 4) s.queue.values now none true
        (nowEntry s.pool.created tarId type qid :: s.queue.entries)

theorem At.self (hsimul : s.queue.simul = false) :
    At s.pool.asked s.queue.entries s.queue.values false s :=
  ⟨rfl, rfl, rfl, hsimul⟩

theorem queueNow_ends (hsimul : s.queue.simul = false) (now tarId : Int) (once : Bool) :
    Ends (Que.queueNow w now tarId once) s (fun _ _ => ¬ NowEmptied w s now tarId once)
      fun e _ => e = .emptyFront ↔ NowEmptied w s now tarId once := by
  have hstart := At.self hsimul
  refine ends_read (ends_ite (fun hqueued hnow => ?_) fun hnew => ?_)
  · obtain ⟨hfree, -⟩ := hnow
    rw [hqueued] at hfree
    cases hfree
  have hfree : (once && s.queue.entries.any (·.target.tarId = tarId)) = false := by
    simpa using hnew
  refine Ends.bind (Ends.mono (createTarget_ends hstart tarId) (fun _ _ hnt => hnt)
    fun e _ he => ?_) fun nt s₁ hnt => ?_
  · rw [he.1]
    refine iff_of_false (by decide) fun hnow => ?_
    obtain ⟨-, type, qid, htype, -⟩ := hnow
    rw [he.2] at htype
    cases htype
  obtain ⟨type, htype, rfl, hat₁⟩ := hnt
  refine Ends.bind (R := fun _ s₂ => ∃ qid, w.nextQid (s.pool.asked + 1) = some qid ∧
      Fine w (s.pool.asked + 2) 2 ∧ At (s.pool.asked + 4)
        (nowEntry s.pool.created tarId type qid :: s.queue.entries) s.queue.values false s₂)
    (Ends.bind (Ends.mono (addFront_ends hat₁ _ none none) (fun _ _ hq => hq) fun e _ he => ?_)
      fun _ _ hq => hq) fun _ s₂ hq => ?_
  · rw [he.1]
    refine iff_of_false (by decide) fun hnow => ?_
    obtain ⟨-, type, qid, -, hqid, hfine, -⟩ := hnow
    exact he.2 ⟨qid, hqid, hfine⟩
  obtain ⟨qid, hqid, hfine, hat₂⟩ := hq
  have hnow : NowEmptied w s now tarId once ↔ Emptied w (s.pool.asked + 4) s.queue.values now
      none true (nowEntry s.pool.created tarId type qid :: s.queue.entries) := by
    constructor
    · intro h
      obtain ⟨-, type', qid', htype', hqid', -, hempty⟩ := h
      rw [htype] at htype'
      rw [hqid] at hqid'
      cases htype'
      cases hqid'
      exact hempty
    · exact fun hempty => ⟨hfree, type, qid, htype, hqid, hfine, hempty⟩
  rw [hnow]
  refine Ends.bind (R := fun _ s₃ =>
      (Emptied w (s.pool.asked + 4) s.queue.values now none true
        (nowEntry s.pool.created tarId type qid :: s.queue.entries) ∧ s₃.queue.entries = []) ∨
      (¬ Emptied w (s.pool.asked + 4) s.queue.values now none true
        (nowEntry s.pool.created tarId type qid :: s.queue.entries) ∧
          ∃ e rest, s₃.queue.entries = e :: rest))
    (Ends.bind (Ends.mono (filter_emptied hat₂ now none true) (fun _ _ hr => hr) fun e _ he => ?_)
      fun r s₃ hr => ?_) fun _ s₃ hr => ?_
  · rw [he.1]
    exact iff_of_false (by decide) he.2
  · rcases hr with ⟨hempty, -, hs₃⟩ | hrest
    · exact Or.inl ⟨hempty, hs₃⟩
    · exact Or.inr hrest
  · rcases hr with ⟨hempty, hs₃⟩ | ⟨hnot, e, rest, hs₃⟩
    · exact Ends.mono (front_faults hs₃).bind (fun _ _ hf => False.elim hf)
        fun e _ he => iff_of_true he hempty
    · exact Ends.bind (Ends.mono (front_ends hs₃) (fun _ _ he => he)
        fun e _ he => iff_of_false he hnot) fun _ _ _ => hnot

theorem ne_emptyFront_iff {α : Type} {x : Que α} {B : Prop}
    (h : Ends x s (fun _ _ => ¬ B) fun e _ => e = .emptyFront ↔ B) :
    (x s).1 ≠ .error .emptyFront ↔ ¬ B := by
  rcases hres : x s with ⟨e | r, s'⟩
  · have he := h.of_error hres
    rw [← he]
    simp
  · simpa using h.of_ok hres

/-- **The front of an empty queue** is read exactly when the filter empties the
queue: no entry survives, and the database answers. -/
theorem front_read_iff (w : World) (s : QueState) (now : Int) (hsimul : s.queue.simul = false) :
    (∀ (nextTime nextLength : Option Int) (removeObserved : Bool),
      (Que.selectNextObservation w now nextTime nextLength removeObserved s).1 ≠
          .error .emptyFront ↔
        s.queue.values.queueEnabled = false ∨ s.queue.entries = [] ∨
          ¬ Emptied w s.pool.asked s.queue.values (now + 60) nextLength removeObserved
            s.queue.entries) ∧
    (∀ (tarId : Int) (once : Bool),
      (Que.queueNow w now tarId once s).1 ≠ .error .emptyFront ↔
        ¬ NowEmptied w s now tarId once) := by
  constructor
  · intro nextTime nextLength removeObserved
    by_cases hskip : (s.queue.values.queueEnabled = false || s.queue.entries.isEmpty) = true
    · have hnone : Ends (Que.selectNextObservation w now nextTime nextLength removeObserved) s
          (fun _ _ => ¬ False) fun e _ => e = .emptyFront ↔ False :=
        ends_read (ends_ite (fun _ => not_false) fun h => absurd hskip h)
      refine iff_of_true ((ne_emptyFront_iff hnone).mpr not_false) ?_
      rcases Bool.or_eq_true .. ▸ hskip with h | h
      · exact Or.inl (by simpa using h)
      · exact Or.inr (Or.inl (by simpa using h))
    · rw [Bool.or_eq_true, not_or] at hskip
      have henabled : s.queue.values.queueEnabled = true := by simpa using hskip.1
      have hne : s.queue.entries ≠ [] := by simpa using hskip.2
      rw [ne_emptyFront_iff (selectNextObservation_ends (At.self hsimul) henabled hne now nextTime
        nextLength removeObserved)]
      simp [henabled, hne]
  · exact fun tarId once => ne_emptyFront_iff (queueNow_ends hsimul now tarId once)

/-- A queue with one entry, which has no end. -/
theorem front_read_one :
    let queue := { ExecutorQueue.new with
      entries := [nowEntry 1 5 'O' 1] }
    (Que.selectNextObservation World.quiet 0 none none true ⟨Pool.new, queue⟩).1 ≠
        .error .emptyFront ∧
      (Que.queueNow World.quiet 0 6 true ⟨Pool.new, queue⟩).1 ≠ .error .emptyFront := by
  intro queue
  have hsurvivor (e : QueuedTarget) (now : Int) (he : e = nowEntry 1 5 'O' 1) :
      Survives (World.quiet.sky 0) QueueValues.default now none true [] e := by
    subst he
    exact ⟨fun _ _ h => absurd h List.not_mem_nil, rfl, Or.inr (Or.inl rfl)⟩
  obtain ⟨hselect, hnow⟩ := front_read_iff World.quiet ⟨Pool.new, queue⟩ 0 rfl
  refine ⟨(hselect none none true).mpr ?_, (hnow 6 true).mpr ?_⟩
  · exact Or.inr (Or.inr fun h => h.1 ⟨[], _, [], rfl, hsurvivor _ _ rfl⟩)
  · intro h
    obtain ⟨-, type, qid, -, -, -, hempty, -⟩ := h
    exact hempty ⟨[_], _, [], rfl, hsurvivor _ _ rfl⟩

/-- The end of the only entry has passed. -/
theorem front_read_expired :
    (Que.selectNextObservation World.quiet 0 none none true
      ⟨Pool.new, { ExecutorQueue.new with
        entries := [{ nowEntry 1 5 'O' 1 with tEnd := some 10 }] }⟩).1 = .error .emptyFront :=
  rfl

end Reading
end Rts2.Plan
